import StoryMachine.Instruction.Encoding
import StoryMachine.Machine.Run
import StoryMachine.Main
import StoryMachine.Proofs.EncodingRoundTrip
import StoryMachine.Proofs.ObjectTree
import StoryMachine.Proofs.SaveRestore
import StoryMachine.Proofs.StackEffect
import StoryMachine.Proofs.UndoHistory
import StoryMachine.Proofs.WriteProtection
import StoryMachine.Script
import StoryMachine.Terminal.Arguments
import StoryMachine.Terminal.Playing
import StoryMachine.Terminal.Script
import StoryMachine.Proofs.DictionaryCache
import StoryMachine.Proofs.StackDiscipline
import StoryMachine.Proofs.CheckedReading
import StoryMachine.Proofs.RejectedSnapshot
import StoryMachine.Proofs.StoryIdentity
import StoryMachine.Proofs.Halting
import StoryMachine.Proofs.Overflow
import StoryMachine.Proofs.Restarting
import StoryMachine.Proofs.Timeouts
import StoryMachine.Proofs.Expansion
import StoryMachine.Proofs.CallIsolation
import StoryMachine.Proofs.FrameLimit
import StoryMachine.Proofs.StreamRouting
import StoryMachine.Proofs.DictionaryKey
import StoryMachine.Proofs.TextParts
import StoryMachine.Proofs.Retrying
import StoryMachine.Proofs.Throwing
import StoryMachine.Proofs.ParseBuffer
import StoryMachine.Proofs.PropertyLists
import StoryMachine.Proofs.LineBreaking
import StoryMachine.Proofs.SetUpOutcome
import StoryMachine.Proofs.SetUpAgain
import StoryMachine.Proofs.SiblingWalk
import StoryMachine.Proofs.FormPrinting
import StoryMachine.Proofs.TranscriptFlag
import StoryMachine.Proofs.ForeignChunks
import StoryMachine.Proofs.FrameRecords
import StoryMachine.Proofs.TableCopying
import StoryMachine.Proofs.RandomSequence
import StoryMachine.Proofs.CharacterCodes
import StoryMachine.Proofs.TableStack
import StoryMachine.Proofs.CommandReplay
import StoryMachine.Proofs.Tours
import StoryMachine.Proofs.ObjectFields
import StoryMachine.Proofs.PackedText
import StoryMachine.Proofs.PendingText
