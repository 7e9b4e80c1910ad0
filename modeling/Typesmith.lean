import Typesmith.Naming
import Typesmith.Reference
import Typesmith.Registry
import Typesmith.Kind
import Typesmith.Diagnostic
import Typesmith.Json.Writer
import Typesmith.Json.Reader
import Typesmith.Console.Log
import Typesmith.Fragment.Encode
import Typesmith.Fragment.Merge
import Typesmith.Resolver
import Typesmith.Rules
import Typesmith.Model.Convert
import Typesmith.Model.Render
import Typesmith.Declaration.Layout
import Typesmith.Document.Basic
import Typesmith.EntryPoint.Synthesis
import Typesmith.Conversion.Run
import Typesmith.Document.Source
import Typesmith.Main
import Typesmith.Proofs.Execution
import Typesmith.Proofs.Step
import Typesmith.Proofs.Growth
import Typesmith.Proofs.Identity
import Typesmith.Proofs.Decoding
import Typesmith.Proofs.Declaring
import Typesmith.Proofs.Gathering
import Typesmith.Proofs.Completeness
import Typesmith.Proofs.Depth
import Typesmith.Proofs.Weight
import Typesmith.Proofs.Nesting
import Typesmith.Proofs.Settling
import Typesmith.Proofs.Exploring
import Typesmith.Proofs.Classifying
import Typesmith.Proofs.Meaning
import Typesmith.Proofs.Termination
import Typesmith.Proofs.Soundness
import Typesmith.Proofs.Collecting
import Typesmith.Proofs.Ownership
import Typesmith.Proofs.Rooting
import Typesmith.Proofs.Closure
import Typesmith.Proofs.Coverage
import Typesmith.Proofs.Undisturbed
import Typesmith.Proofs.Titling
import Typesmith.Proofs.Mounting
import Typesmith.Proofs.Spelling
import Typesmith.Proofs.Referring
import Typesmith.Proofs.Sharing
import Typesmith.Proofs.Paths
import Typesmith.Proofs.Linking
import Typesmith.Proofs.Moving
import Typesmith.Proofs.Importing
import Typesmith.Proofs.Visiting
import Typesmith.Proofs.Addressing
import Typesmith.Proofs.Planning
import Typesmith.Proofs.Unfolding
import Typesmith.Proofs.Registering
import Typesmith.Proofs.Following
import Typesmith.Proofs.Retrying
import Typesmith.Proofs.Reporting
import Typesmith.Proofs.Ordering
import Typesmith.Proofs.Keys
import Typesmith.Proofs.Origins
import Typesmith.Proofs.Features
import Typesmith.Proofs.Nullability
import Typesmith.Proofs.Citing
import Typesmith.Proofs.Capturing
import Typesmith.Proofs.Heading
import Typesmith.Proofs.Viewing
import Typesmith.Proofs.Inspecting
import Typesmith.Proofs.Likeness
import Typesmith.Proofs.Merging
import Typesmith.Proofs.Regrouping
import Typesmith.Proofs.Subsuming
import Typesmith.Proofs.Bracketing
import Typesmith.Proofs.Admitting
import Typesmith.Proofs.Shadowing
import Typesmith.Proofs.Rewriting
import Typesmith.Proofs.Choices
import Typesmith.Proofs.Reaching
import Typesmith.Proofs.Unrolling
import Typesmith.Proofs.Alternatives
import Typesmith.Proofs.Commenting
import Typesmith.Proofs.Overriding
import Typesmith.Proofs.Responding
import Typesmith.Proofs.Placing
import Typesmith.Proofs.Coinciding
import Typesmith.Proofs.Agreeing
import Typesmith.Proofs.Prefacing
import Typesmith.Proofs.Enumerating
import Typesmith.Proofs.Denoting
import Typesmith.Proofs.Committing
import Typesmith.Proofs.Itemizing
import Typesmith.Proofs.Directing
import Typesmith.Proofs.Grounding
import Typesmith.Proofs.Branching
import Typesmith.Proofs.Styling
import Typesmith.Proofs.Normalizing
import Typesmith.Proofs.Chaining
import Typesmith.Proofs.Renaming
import Typesmith.Proofs.Coloring
