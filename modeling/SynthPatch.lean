import SynthPatch.Main
import SynthPatch.Conversion
import SynthPatch.Double
import SynthPatch.Expr.Compile
import SynthPatch.Keyboard.Basic
import SynthPatch.Proofs.Expr.Correctness
import SynthPatch.Proofs.Language.Completeness
import SynthPatch.Proofs.Language.Soundness
import SynthPatch.Proofs.Patch.Assembly
import SynthPatch.Proofs.Voice.Building
import SynthPatch.Proofs.Voice.Playing
import SynthPatch.Proofs.Voice.Rebuilding
import SynthPatch.Proofs.Keyboard.Ledger
import SynthPatch.Proofs.Keyboard.Tails
import SynthPatch.Proofs.Double.Order
import SynthPatch.Proofs.Expr.Writing
import SynthPatch.Proofs.Expr.Acceptance
import SynthPatch.Proofs.Voice.Releasing
import SynthPatch.Proofs.Voice.Reach
import SynthPatch.Proofs.Voice.Wiring
import SynthPatch.Proofs.Voice.Fresh
import SynthPatch.Proofs.Voice.Driving
import SynthPatch.Proofs.Module.Course
import SynthPatch.Proofs.Module.Silencing
import SynthPatch.Proofs.Module.Falling
import SynthPatch.Proofs.Voice.Fading
import SynthPatch.Proofs.Keyboard.Removal
import SynthPatch.Proofs.Keyboard.Notes
import SynthPatch.Proofs.Keyboard.Provenance
import SynthPatch.Proofs.Keyboard.Refusal
import SynthPatch.Proofs.Keyboard.Broadcast
import SynthPatch.Proofs.Voice.Changing
import SynthPatch.Proofs.Voice.Twins
import SynthPatch.Proofs.Patch.Shuffling
import SynthPatch.Proofs.Voice.Shuffling
import SynthPatch.Proofs.Patch.Derivation
import SynthPatch.Proofs.Language.Asides
import SynthPatch.Proofs.Language.Appending
import SynthPatch.Proofs.Patch.Document
import SynthPatch.Proofs.Expr.Soundness
import SynthPatch.Proofs.Module.Shape
import SynthPatch.Proofs.Module.Editing
import SynthPatch.Proofs.Module.Bounds
import SynthPatch.Proofs.Keyboard.Independence
import SynthPatch.Proofs.Voice.Bending
import SynthPatch.Proofs.Voice.Skipping
import SynthPatch.Proofs.Expr.Numerals
import SynthPatch.Proofs.Patch.Warnings
