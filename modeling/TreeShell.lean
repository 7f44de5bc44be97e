import TreeShell.Main
import TreeShell.Proofs.Session.Completion
import TreeShell.Proofs.Session.Failures
import TreeShell.Proofs.Session.Names
import TreeShell.Proofs.Session.Paths
import TreeShell.Settings.Store
import TreeShell.Proofs.Session.Takeover
import TreeShell.Proofs.Session.History
import TreeShell.Proofs.Session.Unseen
import TreeShell.Proofs.Session.Typing
import TreeShell.Proofs.Console.Script
import TreeShell.Proofs.Session.SaveEdit
import TreeShell.Proofs.Session.Uncommitted
import TreeShell.Proofs.Session.Traceless
import TreeShell.Proofs.Settings.Reading
import TreeShell.Proofs.Session.Interrupts
import TreeShell.Proofs.Session.Making
import TreeShell.Proofs.Command.Tokens
import TreeShell.Proofs.Tree.Planting
import TreeShell.Proofs.Session.Calls
import TreeShell.Proofs.Session.Insertion
import TreeShell.Proofs.Session.Recall
import TreeShell.Proofs.Session.Word
import TreeShell.Proofs.Session.Ambiguity
import TreeShell.Proofs.Tree.Levels
import TreeShell.Proofs.Session.Descent
import TreeShell.Proofs.Session.Unedited
import TreeShell.Proofs.Session.EditorKeys
import TreeShell.Proofs.Session.Arguments
import TreeShell.Proofs.Session.BrokenPrompt
import TreeShell.Proofs.Settings.Refusal
import TreeShell.Proofs.Path
import TreeShell.Proofs.Log.Sinks
import TreeShell.Proofs.Settings.Operations
