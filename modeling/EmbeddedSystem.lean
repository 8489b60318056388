import EmbeddedSystem.Foundation.Runs
import EmbeddedSystem.Foundation.Mailbox
import EmbeddedSystem.Foundation.CountedLoop
import EmbeddedSystem.Foundation.InPlace
import EmbeddedSystem.Foundation.Scroll
import EmbeddedSystem.Foundation.BlockStream
import EmbeddedSystem.Foundation.Decimal
import EmbeddedSystem.Picture.Header
import EmbeddedSystem.Picture.ShowThePic
import EmbeddedSystem.Picture.Access
import EmbeddedSystem.Picture.Painting
import EmbeddedSystem.Picture.Fly
import EmbeddedSystem.Picture.Shades
import EmbeddedSystem.Picture.Bounds
import EmbeddedSystem.Picture.Decode
import EmbeddedSystem.Ui.Touch
import EmbeddedSystem.Ui.Arms
import EmbeddedSystem.Ui.Navigation
import EmbeddedSystem.Ui.Player
import EmbeddedSystem.Ui.System
import EmbeddedSystem.Ui.Silence
import EmbeddedSystem.Ui.Commands
import EmbeddedSystem.Voice.Text
import EmbeddedSystem.Voice.Server
import EmbeddedSystem.Voice.Tail
import EmbeddedSystem.Voice.Answer
import EmbeddedSystem.Voice.Upload
import EmbeddedSystem.Voice.Deadlock
import EmbeddedSystem.Voice.Survival
import EmbeddedSystem.Ui.Remote
import EmbeddedSystem.Ui.Playback
import EmbeddedSystem.Ui.Reply
import EmbeddedSystem.Ui.SinglePlayer
import EmbeddedSystem.Ui.VoicePage
import EmbeddedSystem.Ui.Album
import EmbeddedSystem.Foundation.Shell
import EmbeddedSystem.Ui.Folder
import EmbeddedSystem.Ui.Resources
import EmbeddedSystem.Ui.ShellCommand
import EmbeddedSystem.Foundation.Cyclic
import EmbeddedSystem.Ui.Cycle
import EmbeddedSystem.Ui.Dirent
import EmbeddedSystem.Ui.Gesture
import EmbeddedSystem.Ui.BackButton
import EmbeddedSystem.Ui.TouchThread
import EmbeddedSystem.Foundation.Layers
import EmbeddedSystem.Ui.AlbumScreen
import EmbeddedSystem.Ui.Progress
import EmbeddedSystem.Ui.Icons
import EmbeddedSystem.Foundation.Chunks
import EmbeddedSystem.Recognition.AsrSample
import EmbeddedSystem.Recognition.Audio
import EmbeddedSystem.Recognition.Manual
import EmbeddedSystem.Recognition.Result
import EmbeddedSystem.Recognition.Grammar
import EmbeddedSystem.Recognition.Release
import EmbeddedSystem.Recognition.Exchange
import EmbeddedSystem.Ui.Screen
import EmbeddedSystem.Recognition.Recorder
import EmbeddedSystem.Recognition.RecorderBlocks
