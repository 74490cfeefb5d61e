import RegistryHive.Field
import RegistryHive.Proofs.Payload.Exactness
import RegistryHive.Proofs.Cell.EncodedCell
import RegistryHive.Proofs.Files.Sessions
import RegistryHive.Proofs.Log.CheckedScan
import RegistryHive.Proofs.Recovery.Coherence
import RegistryHive.Proofs.Recovery.NewestState
import RegistryHive.Proofs.Recovery.Rounds
import RegistryHive.Proofs.Traversal.CutOff
import RegistryHive.Proofs.Traversal.Exactness
import RegistryHive.Proofs.Traversal.Flatten
import RegistryHive.Proofs.Traversal.ListShapes
import RegistryHive.Proofs.Traversal.FullPaths
import RegistryHive.Proofs.Traversal.Refinement
import RegistryHive.Session
import RegistryHive.Proofs.Traversal.ListTrees
import RegistryHive.Proofs.Payload.StorageForms
import RegistryHive.Proofs.Log.Truncation
import RegistryHive.Proofs.Text.Surrogates
import RegistryHive.Proofs.Text.TextLists
import RegistryHive.Proofs.Traversal.ListedNames
import RegistryHive.Proofs.Cell.SameContent
import RegistryHive.Proofs.Cell.Standing
import RegistryHive.Proofs.Traversal.Spellings
import RegistryHive.Proofs.Cell.NameLayouts
import RegistryHive.Proofs.Recovery.CellBounds
import RegistryHive.Proofs.Cell.ReadablePrefix
import RegistryHive.Proofs.Filetimes
import RegistryHive.Proofs.Files.NamedAgain
