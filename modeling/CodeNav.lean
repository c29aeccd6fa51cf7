import CodeNav.Main
import CodeNav.Proofs.Assist.Members
import CodeNav.Proofs.Assist.TypedCall
import CodeNav.Proofs.Calls.EnclosingBlock
import CodeNav.Proofs.Calls.HistoryStack
import CodeNav.Proofs.Calls.OwnCall
import CodeNav.Proofs.Checked.CursorAnalyses
import CodeNav.Proofs.Document.ArgumentList
import CodeNav.Proofs.Document.InstanceProperties
import CodeNav.Proofs.Navigation.DeclarationLines
import CodeNav.Proofs.Navigation.ReceiverWord
import CodeNav.Proofs.Navigation.Reload
import CodeNav.Proofs.Navigation.SameWord
import CodeNav.Proofs.Navigation.TableOrder
import CodeNav.Proofs.Source.AssignedPaths
import CodeNav.Proofs.Source.MethodNames
import CodeNav.Proofs.Symbol.ReadableLines
import CodeNav.Proofs.Wire.Effects
import CodeNav.Proofs.Wire.RequestText
import CodeNav.Proofs.Workspace.Discovery
import CodeNav.Proofs.Workspace.IndexLoading
import CodeNav.Proofs.Workspace.RebuildEvents
import CodeNav.Proofs.Workspace.RecordKeys
import CodeNav.Proofs.Workspace.Reindex
import CodeNav.Proofs.Workspace.Removal
import CodeNav.Proofs.Workspace.SavedSettings
import CodeNav.Proofs.Workspace.Spellings
import CodeNav.Proofs.Workspace.Upkeep
