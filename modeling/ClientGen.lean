import ClientGen.Files.Tree
import ClientGen.Main
import ClientGen.Proofs.Accounting
import ClientGen.Proofs.ArrayType
import ClientGen.Proofs.Claims
import ClientGen.Proofs.ClassMember
import ClientGen.Proofs.ClientFile
import ClientGen.Proofs.Collision
import ClientGen.Proofs.CommandGroup
import ClientGen.Proofs.CommandRoute
import ClientGen.Proofs.CommentBlock
import ClientGen.Proofs.Confinement
import ClientGen.Proofs.DeclarationDepth
import ClientGen.Proofs.DeclaredName
import ClientGen.Proofs.DomainEvent
import ClientGen.Proofs.DryRun
import ClientGen.Proofs.EnumMember
import ClientGen.Proofs.ImportBlock
import ClientGen.Proofs.InPlace
import ClientGen.Proofs.Intersection
import ClientGen.Proofs.MethodPair
import ClientGen.Proofs.ModelReference
import ClientGen.Proofs.NameCapture
import ClientGen.Proofs.NameCheck
import ClientGen.Proofs.Nullability
import ClientGen.Proofs.ObjectParent
import ClientGen.Proofs.ParameterOverride
import ClientGen.Proofs.ParameterWord
import ClientGen.Proofs.PartialFailure
import ClientGen.Proofs.PathOrder
import ClientGen.Proofs.PathTemplate
import ClientGen.Proofs.QueryStream
import ClientGen.Proofs.ReferencedImport
import ClientGen.Proofs.RelativeModule
import ClientGen.Proofs.Represented
import ClientGen.Proofs.RuntimeName
import ClientGen.Proofs.SchemaOrder
import ClientGen.Proofs.Signature
import ClientGen.Proofs.SkippedMethod
import ClientGen.Proofs.SkippedSchema
import ClientGen.Proofs.StreamName
import ClientGen.Proofs.WrittenType
