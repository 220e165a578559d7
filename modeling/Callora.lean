import Callora.Calls.Tasks
import Callora.Calls.Ending
import Callora.Calls.Gate
import Callora.Calls.Doubt
import Callora.Business.LlmReply
import Callora.Audio.Tempo
import Callora.Providers.Sse
import Callora.Calls.Session
import Callora.Business.Library
import Callora.Audio.Idle
import Callora.Business.SayReading
import Callora.Business.Resolve
import Callora.Business.OneAnswer
import Callora.Desk.OneOperator
import Callora.Desk.NoneWaiting
import Callora.Audio.VoiceLibrary
import Callora.Outbox.Once
import Callora.Dashboard.Changes
import Callora.Prices.Answers
import Callora.Hearing.Finalizing
import Callora.Hearing.InOrder
import Callora.Answering.Once
import Callora.Business.Merging
import Callora.Business.Rotation
import Callora.Engine.Undoing
import Callora.Calls.Silences
import Callora.Calls.Ladder
import Callora.Text.SaidNumbers
import Callora.Text.TimeArithmetic
import Callora.Text.Speech
import Callora.Text.Spoken
import Callora.Text.Recasts
import Callora.Text.Amounts
import Callora.Dashboard.Items
import Callora.Audio.Pieces
import Callora.Audio.Vad
import Callora.Providers.Recognizers
import Callora.Prices.Pace
import Callora.Outbox.Limits
import Callora.Outbox.Paced
import Callora.Prices.PriceList
import Callora.Text.Stripping
import Callora.Text.Wording
import Callora.Audio.LooseClips
import Callora.Library.Edits
import Callora.Business.Distance
import Callora.Business.Unheard
import Callora.Text.Boundaries
import Callora.Business.Explained
import Callora.Audio.Slices
import Callora.Audio.Stories
import Callora.Business.References
import Callora.Business.Rows
import Callora.Business.Listed
