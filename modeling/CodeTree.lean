import CodeTree.Build.Session
import CodeTree.Lua.Generator
import CodeTree.Proofs.Acceptance.Passing
import CodeTree.Proofs.Acceptance.Raw
import CodeTree.Proofs.Acceptance.Strictness
import CodeTree.Proofs.Binding.Hygiene
import CodeTree.Proofs.Dialects.Syntax
import CodeTree.Proofs.Dialects.Targets
import CodeTree.Proofs.Emission.Appending
import CodeTree.Proofs.Emission.Library
import CodeTree.Proofs.Equality.Laws
import CodeTree.Proofs.Lexical.Integrity
import CodeTree.Proofs.Lines.Indentation
import CodeTree.Proofs.Lines.Separation
import CodeTree.Proofs.Meaning.Access
import CodeTree.Proofs.Meaning.Preservation
import CodeTree.Proofs.Names.Dependence
import CodeTree.Proofs.Reading.Chunk
import CodeTree.Proofs.Reading.Suffixes
import CodeTree.Proofs.Runs.Requests
import CodeTree.Proofs.Runs.Session
import CodeTree.Proofs.Variants.Sharing
import CodeTree.Proofs.Variants.Unexpressed
import CodeTree.Proofs.Walking.FirstRaw
import CodeTree.Tree.Equality
import CodeTree.Tree.Portability
import CodeTree.Tree.Recorder
import CodeTree.Proofs.Meaning.Creation
import CodeTree.Proofs.Equality.Code
import CodeTree.Proofs.Reading.Variables
import CodeTree.Proofs.Reading.Descent
import CodeTree.Proofs.Reading.Extension
import CodeTree.Proofs.Reading.Operators
import CodeTree.Proofs.Lines.Verbatim
import CodeTree.Proofs.Reading.Strings
import CodeTree.Proofs.Number.Written
import CodeTree.Proofs.Inspection.Identity
