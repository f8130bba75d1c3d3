import Captions.Board.Script
import Captions.Display.Screen
import Captions.Display.Terminal.Decoder
import Captions.Main
import Captions.Proofs.Cue.RoundTrip
import Captions.Proofs.Race.Accounting
import Captions.Proofs.Race.Session
import Captions.Proofs.Session.Leftover
import Captions.Session.Script
import Captions.Proofs.Cue.Meaning
import Captions.Proofs.Session.Replay
import Captions.Proofs.Session.Visibility
import Captions.Proofs.Session.Order
import Captions.Proofs.Board.Border
import Captions.Proofs.Board.Picture
import Captions.Proofs.Session.Residue
import Captions.Proofs.Session.Isolation
import Captions.Proofs.Session.Undrawable
import Captions.Proofs.Session.Cancellation
import Captions.Proofs.Session.Stages
import Captions.Proofs.Board.Failure
import Captions.Proofs.Board.Displays
import Captions.Proofs.Reading
import Captions.Proofs.Session.Ingestion
import Captions.Proofs.Session.Containment
import Captions.Proofs.CommandLine.DryRun
import Captions.Proofs.CommandLine.Playing
import Captions.Proofs.Cue.Draft
import Captions.Proofs.Cue.Image
import Captions.Proofs.Display.Decoding
import Captions.Proofs.Board.Range
import Captions.Proofs.Board.Layout
import Captions.Proofs.Board.Box
import Captions.Proofs.Cue.Tokens
import Captions.Proofs.Timecode.Canonical
