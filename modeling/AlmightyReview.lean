import AlmightyReview.Lib.Sys
import AlmightyReview.Lib.Sql
import AlmightyReview.Lib.Text
import AlmightyReview.Db
import AlmightyReview.Job.Repo
import AlmightyReview.Job.Process
import AlmightyReview.Job.Fence
import AlmightyReview.Job.Attempt
import AlmightyReview.Lib.Json
import AlmightyReview.Lib.Sha256
import AlmightyReview.Post.Comment
import AlmightyReview.Post.Api
import AlmightyReview.Post.Steps
import AlmightyReview.Post.Reserve
import AlmightyReview.Post.Replay
import AlmightyReview.Post.World
import AlmightyReview.Post.Once
import AlmightyReview.Lib.Scan
import AlmightyReview.Diff.Blocks
import AlmightyReview.Diff.Chunk
import AlmightyReview.Diff.Cap
import AlmightyReview.Lib.Prog
import AlmightyReview.Lib.Pool
import AlmightyReview.Job.Enqueue
import AlmightyReview.Job.Stale
import AlmightyReview.Job.Calls
import AlmightyReview.Lib.Log
import AlmightyReview.Job.Queue
import AlmightyReview.Job.Truthful
import AlmightyReview.Job.Served
import AlmightyReview.Job.Bounded
import AlmightyReview.Pr.Repo
import AlmightyReview.Pr.Poll
import AlmightyReview.Pr.Newer
import AlmightyReview.Review.Findings
import AlmightyReview.Review.Policy
import AlmightyReview.Review.Repo
import AlmightyReview.Review.Prompt
import AlmightyReview.Review.Identity
import AlmightyReview.Review.Publish
import AlmightyReview.Review.Op
import AlmightyReview.Review.Pipeline
import AlmightyReview.Review.Worker
import AlmightyReview.Review.History
import AlmightyReview.Page.Summary
import AlmightyReview.Lib.Seek
import AlmightyReview.Page.Pages
import AlmightyReview.Page.Migration
import AlmightyReview.Delete.Tables
import AlmightyReview.Delete.Remove
import AlmightyReview.Delete.Closed
import AlmightyReview.Delete.Eligible
import AlmightyReview.Delete.Age
import AlmightyReview.Wiki.Repo
import AlmightyReview.Delete.Race
import AlmightyReview.Lib.Fault
import AlmightyReview.Pr.Sync
import AlmightyReview.Lib.Earlier
import AlmightyReview.Review.Grouping
import AlmightyReview.Review.Batches
import AlmightyReview.Review.Duplicates
import AlmightyReview.Review.Regroup
import AlmightyReview.Review.Representative
import AlmightyReview.Lib.Tsql
import AlmightyReview.Sql.Guard
import AlmightyReview.Sql.Mask
import AlmightyReview.Sql.Lexical
import AlmightyReview.Lib.Base64
import AlmightyReview.Lib.Decimal
import AlmightyReview.Diff.Unified
import AlmightyReview.Diff.Sides
import AlmightyReview.Diff.Split
import AlmightyReview.Sql.Search
import AlmightyReview.Sql.Outer
import AlmightyReview.Sql.Bound
import AlmightyReview.Sql.Rows
import AlmightyReview.Wiki.Stale
import AlmightyReview.Diff.Filter
import AlmightyReview.Diff.Quote
import AlmightyReview.Review.Scope
import AlmightyReview.Lib.Cluster
import AlmightyReview.Review.Consensus
import AlmightyReview.Review.Verify
import AlmightyReview.Review.Confirmed
import AlmightyReview.Diff.Files
import AlmightyReview.Diff.Reads
import AlmightyReview.Diff.Reparse
import AlmightyReview.Lib.Loads
import AlmightyReview.Review.JsonBlock
import AlmightyReview.Review.Events
import AlmightyReview.Review.Tolerant
import AlmightyReview.Sql.Offsets
import AlmightyReview.Lib.Quoted
import AlmightyReview.Review.Manifest
import AlmightyReview.Post.Formatter
import AlmightyReview.Review.Snapshot
import AlmightyReview.Lib.Integer
import AlmightyReview.Context.CatFile
import AlmightyReview.Lib.OrderedDict
import AlmightyReview.Context.GitCache
import AlmightyReview.Context.Blocks
import AlmightyReview.Lib.Lists
import AlmightyReview.Bench.Artifacts
import AlmightyReview.Bench.Score
import AlmightyReview.Bench.Attest
import AlmightyReview.Context.Schema
import AlmightyReview.Wiki.Catalog
import AlmightyReview.Wiki.Rendered
import AlmightyReview.Wiki.Exact
import AlmightyReview.Review.ContentFree
import AlmightyReview.Review.FindingsSchema
import AlmightyReview.Lib.Paging
import AlmightyReview.Post.Listing
import AlmightyReview.Review.Diagnostics
import AlmightyReview.Lib.RoundTrip
import AlmightyReview.Lib.Written
import AlmightyReview.Page.Cursor
import AlmightyReview.Page.Findings
import AlmightyReview.Page.Walk
import AlmightyReview.Lib.Raise
import AlmightyReview.Review.Signals
import AlmightyReview.Review.Rules
import AlmightyReview.Review.Fresh
import AlmightyReview.Review.Lane
import AlmightyReview.Lib.Evolve
import AlmightyReview.Review.Effect
import AlmightyReview.Review.Stored
import AlmightyReview.Review.Server
import AlmightyReview.Review.Invariant
import AlmightyReview.Review.Step
import AlmightyReview.Review.Safety
import AlmightyReview.Review.Converge
import AlmightyReview.Lib.Mark
import AlmightyReview.Review.Fences
import AlmightyReview.Lib.Replace
import AlmightyReview.Context.Gather
import AlmightyReview.Review.Adapter
import AlmightyReview.Review.Envelope
