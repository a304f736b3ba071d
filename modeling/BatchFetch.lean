import BatchFetch.Directive.Record
import BatchFetch.Main
import BatchFetch.Proofs.Entries
import BatchFetch.Proofs.Text.Pieces
import BatchFetch.Proofs.Text.Filling
import BatchFetch.Proofs.Text.Refilling
import BatchFetch.Proofs.Text.Blank
import BatchFetch.Proofs.Text.Utf8
import BatchFetch.Proofs.Json.Printer
import BatchFetch.Proofs.Status
import BatchFetch.Proofs.Store.LookUp
import BatchFetch.Proofs.Store.Overlay
import BatchFetch.Proofs.Store.Document
import BatchFetch.Proofs.Store.InPlace
import BatchFetch.Proofs.Dispatch.Journal
import BatchFetch.Proofs.Batch.Lines
import BatchFetch.Proofs.Batch.LocalEdit
import BatchFetch.Proofs.Batch.Sources
import BatchFetch.Proofs.Dispatch.Related
import BatchFetch.Proofs.Dispatch.Noninterference
import BatchFetch.Proofs.Job.Breadth
import BatchFetch.Proofs.Job.Loop
import BatchFetch.Proofs.Job.Order
import BatchFetch.Proofs.Job.Answers
import BatchFetch.Proofs.Job.Levels
import BatchFetch.Proofs.Job.Handling
import BatchFetch.Proofs.Job.Failures
import BatchFetch.Proofs.Url.HostName
import BatchFetch.Proofs.Url.HostText
import BatchFetch.Proofs.Url.Served
import BatchFetch.Proofs.Url.Text
import BatchFetch.Proofs.Files.Growth
import BatchFetch.Proofs.Files.Paths
import BatchFetch.Proofs.Files.Places
import BatchFetch.Proofs.Job.Targets
import BatchFetch.Proofs.Job.Clean
import BatchFetch.Proofs.Job.Agreement
import BatchFetch.Proofs.Session.Layers
import BatchFetch.Proofs.Batch.TargetLines
import BatchFetch.Proofs.Dispatch.Endings
import BatchFetch.Proofs.Dispatch.Unsupported
import BatchFetch.Proofs.Batch.Written
import BatchFetch.Proofs.Dispatch.Told
import BatchFetch.Proofs.Dispatch.Templates
import BatchFetch.Proofs.Dispatch.Options
import BatchFetch.Proofs.Session.Unaffected
import BatchFetch.Proofs.Job.Endings
import BatchFetch.Proofs.Session.ExitCode
import BatchFetch.Proofs.Files.Additions
import BatchFetch.Proofs.Job.Acts
import BatchFetch.Proofs.Job.Confinement
import BatchFetch.Proofs.Job.FileNames
import BatchFetch.Proofs.Job.Stretches
import BatchFetch.Proofs.Files.Kept
import BatchFetch.Proofs.Job.Kept
import BatchFetch.Proofs.Store.Levels
import BatchFetch.Proofs.Store.Inheritance
import BatchFetch.Proofs.Store.Size
import BatchFetch.Proofs.Store.Merging
import BatchFetch.Proofs.Store.Reachable
import BatchFetch.Proofs.Store.Spellings
import BatchFetch.Proofs.Directive.Reading
import BatchFetch.Proofs.Directive.RoundTrip
import BatchFetch.Proofs.Directive.Respelling
import BatchFetch.Proofs.Batch.Accounting
import BatchFetch.Proofs.Files.Resolving
import BatchFetch.Proofs.Job.Steering
import BatchFetch.Proofs.CommandLine.Shortcuts
import BatchFetch.Proofs.Job.OriginalNames
import BatchFetch.Proofs.Session.Precedence
