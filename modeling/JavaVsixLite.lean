import JavaVsixLite.Structural.Silence
import JavaVsixLite.Members.UnusedFields
import JavaVsixLite.Generate.Equality
import JavaVsixLite.Generate.Members
import JavaVsixLite.Members.Agreement
import JavaVsixLite.Scopes.Innermost
import JavaVsixLite.Server.JavacResults
import JavaVsixLite.Server.Refresh
import JavaVsixLite.Expressions.Iteration
import JavaVsixLite.Expressions.InheritedFields
import JavaVsixLite.Expressions.MemberCheck
import JavaVsixLite.Debug.Breakpoints
import JavaVsixLite.Debug.Matching
import JavaVsixLite.Debug.Stepping
import JavaVsixLite.Debug.Suspension
import JavaVsixLite.Debug.VmStart
import JavaVsixLite.Javac.Argfile
import JavaVsixLite.Debug.SourceLookup
import JavaVsixLite.Server.ClasspathFreshness
import JavaVsixLite.Editor.Queue
import JavaVsixLite.Debug.Bookkeeping
import JavaVsixLite.Signatures.Agreement
import JavaVsixLite.Classpath.ZipLayout
import JavaVsixLite.Flow.Unreachable
import JavaVsixLite.Classpath.DroppedDependencies
import JavaVsixLite.Calls.NullArguments
import JavaVsixLite.Documents.Clamping
import JavaVsixLite.Calls.OrderIndependence
import JavaVsixLite.Constructors.EnclosingInstance
import JavaVsixLite.Calls.LambdaShapes
import JavaVsixLite.Rename.Overloads
import JavaVsixLite.Subtyping.Coherence
import JavaVsixLite.Debug.Composite
import JavaVsixLite.Classpath.DegradedEntries
import JavaVsixLite.Classpath.RelativeParent
import JavaVsixLite.Classpath.PassOrder
import JavaVsixLite.Classpath.Precedence
import JavaVsixLite.Classpath.MethodOwners
import JavaVsixLite.Signatures.VariableScopes
import JavaVsixLite.Documents.SemanticTokens
import JavaVsixLite.Javac.LeakedReaders
import JavaVsixLite.Javac.PrintedOutput
import JavaVsixLite.Editor.MavenFetch
import JavaVsixLite.Classpath.PackageChildren
import JavaVsixLite.Server.FileWalk
import JavaVsixLite.Editor.ArtifactAddresses
import JavaVsixLite.Signatures.Display
import JavaVsixLite.Server.ProjectSymbols
import JavaVsixLite.Debug.Output
import JavaVsixLite.Debug.PackageNames
import JavaVsixLite.Help.ParameterOffsets
import JavaVsixLite.Refactor.OrganizeImports
