import VgiMask.Common.Hmac
import VgiMask.Common.Groups
import VgiMask.Common.Trimming
import VgiMask.Common.RowLoop
import VgiMask.Common.Runs
import VgiMask.Common.TwoRuns
import VgiMask.Common.PartialPermutation
import VgiMask.Common.JsonDecoding
import VgiMask.Common.JsonWriting
import VgiMask.Common.JsonReading
import VgiMask.Engine.RoundTrip
import VgiMask.Engine.Collisions
import VgiMask.Engine.Fibres
import VgiMask.Engine.CardTypos
import VgiMask.Engine.IdealCipher
import VgiMask.Engine.KnownPairs
import VgiMask.Engine.FormatPreservation
import VgiMask.Engine.Joins
import VgiMask.Engine.SmallDomain
import VgiMask.Engine.CardPath
import VgiMask.Engine.CharacterClasses
import VgiMask.Engine.Totality
import VgiMask.Engine.Errors
import VgiMask.Engine.Vocabulary
import VgiMask.Engine.Redact
import VgiMask.Engine.LayeredRedaction
import VgiMask.Engine.LayeredEncryption
import VgiMask.Engine.MixedMasks
import VgiMask.Engine.Token
import VgiMask.Engine.KeySeparation
import VgiMask.Engine.HashInputs
import VgiMask.Adapter.Arrow
import VgiMask.Adapter.Scalar
import VgiMask.Adapter.Batch
import VgiMask.Adapter.AnyColumns
import VgiMask.Adapter.OutputSize
import VgiMask.Adapter.Harness
import VgiMask.Adapter.Pipelines
import VgiMask.Adapter.ColumnRoundTrip
import VgiMask.Adapter.JoinKeys
import VgiMask.Adapter.MaskedColumns
import VgiMask.Adapter.Noninterference
import VgiMask.Adapter.Meta
import VgiMask.Adapter.ObjectTags
