import SharedExpr.Graph.Audit
import SharedExpr.Graph.Equality
import SharedExpr.Print.Coloured
import SharedExpr.Walk.Listing
import SharedExpr.Workspace
import SharedExpr.Proofs.Cascade.Accounts
import SharedExpr.Proofs.Store.Issue
import SharedExpr.Proofs.Cascade.Totals
import SharedExpr.Proofs.History.Basic
import SharedExpr.Proofs.Release.Basic
import SharedExpr.Proofs.Graph.Construction
import SharedExpr.Proofs.History.Roots
import SharedExpr.Proofs.Graph.Evolution
import SharedExpr.Proofs.History.Evolution
import SharedExpr.Proofs.Graph.Soundness
import SharedExpr.Proofs.History.Balance
import SharedExpr.Proofs.Release.Fixpoint
import SharedExpr.Proofs.Release.Garbage
import SharedExpr.Proofs.Release.Order
import SharedExpr.Proofs.History.Ownership
import SharedExpr.Proofs.Cascade.Drift
import SharedExpr.Proofs.Graph.Audit
import SharedExpr.Proofs.History.Drift
import SharedExpr.Proofs.History.Issue
import SharedExpr.Proofs.Graph.Descent
import SharedExpr.Proofs.Walk.Ending
import SharedExpr.Proofs.Graph.Equality
import SharedExpr.Proofs.Print.Depth
import SharedExpr.Proofs.History.Acyclic
import SharedExpr.Proofs.Workspace.Handles
import SharedExpr.Proofs.Workspace.Roots
import SharedExpr.Proofs.Graph.Agreement
import SharedExpr.Proofs.Walk.Agreement
import SharedExpr.Proofs.Walk.Listing
import SharedExpr.Proofs.History.Permanence
import SharedExpr.Proofs.Graph.Journal
import SharedExpr.Proofs.Release.Journal
import SharedExpr.Proofs.History.Journal
import SharedExpr.Proofs.Release.Strict
import SharedExpr.Proofs.History.Strict
import SharedExpr.Proofs.Graph.Counted
import SharedExpr.Proofs.History.Totals
import SharedExpr.Proofs.Graph.Unfolding
import SharedExpr.Proofs.History.Expressions
import SharedExpr.Proofs.History.Printing
import SharedExpr.Proofs.Walk.Delivery
import SharedExpr.Proofs.Walk.Log
import SharedExpr.Proofs.Walk.Discipline
import SharedExpr.Proofs.Walk.Recursion
import SharedExpr.Proofs.Graph.Expansion
import SharedExpr.Proofs.Walk.Order
import SharedExpr.Proofs.History.Listing
import SharedExpr.Proofs.Cascade.Unwinding
import SharedExpr.Proofs.History.Dangling
import SharedExpr.Proofs.History.Refusal
import SharedExpr.Proofs.Release.Unwinding
import SharedExpr.Proofs.Graph.Arrivals
import SharedExpr.Proofs.Walk.Cover
import SharedExpr.Proofs.Walk.Levels
import SharedExpr.Proofs.History.Coverage
import SharedExpr.Proofs.History.Construction
import SharedExpr.Proofs.Graph.Sinks
import SharedExpr.Proofs.Release.Sinks
import SharedExpr.Proofs.History.Sinks
import SharedExpr.Proofs.Print.Marked
import SharedExpr.Proofs.Print.Coloured
import SharedExpr.Proofs.History.Capacity
import SharedExpr.Proofs.Cascade.States
import SharedExpr.Proofs.Release.Pending
import SharedExpr.Proofs.Walk.Visits
import SharedExpr.Proofs.Text.Fields
import SharedExpr.Proofs.Trace.Reading
import SharedExpr.Proofs.Trace.Sending
import SharedExpr.Proofs.History.Lines
