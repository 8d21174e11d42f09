import PipeScript.Main
import PipeScript.Proofs.Cache.Answers
import PipeScript.Proofs.CommandLine.Session
import PipeScript.Proofs.Execution.Cancellation
import PipeScript.Proofs.Execution.Chains
import PipeScript.Proofs.Execution.Independence
import PipeScript.Proofs.Execution.Siblings
import PipeScript.Proofs.Syntax.Printing
import PipeScript.Proofs.Syntax.Rejection
import PipeScript.Proofs.Syntax.Reserved
import PipeScript.Proofs.Syntax.Layout
import PipeScript.Rehearsal
import PipeScript.Rehearsal.Script
import PipeScript.Proofs.Disk.Frame
import PipeScript.Proofs.Cache.Separation
import PipeScript.Proofs.Numeral
import PipeScript.Proofs.Weather
import PipeScript.Proofs.Weather.Compass
import PipeScript.Proofs.Crypto
import PipeScript.Proofs.Execution.Turns
import PipeScript.Proofs.Execution.Blocks
import PipeScript.Proofs.Execution.Openings
import PipeScript.Proofs.Execution.Parallel
import PipeScript.Proofs.Execution.Retries
import PipeScript.Proofs.Execution.Loops
import PipeScript.Proofs.Cache.Storing
import PipeScript.Proofs.Cache.Locality
import PipeScript.Proofs.Cache.Fetching
import PipeScript.Proofs.Condition.Literals
import PipeScript.Proofs.Binary64.Rounding
import PipeScript.Proofs.Binary64.Arithmetic
import PipeScript.Proofs.Execution.Backoff
import PipeScript.Proofs.Text.Splitting
import PipeScript.Proofs.Loop.Separators
import PipeScript.Proofs.Loop.Rejoining
import PipeScript.Proofs.Loop.DataLines
import PipeScript.Proofs.Command.NotFound
import PipeScript.Proofs.Condition.Opposites
import PipeScript.Proofs.Text.Lines
import PipeScript.Proofs.Condition.Fields
import PipeScript.Proofs.Numeral.Prose
import PipeScript.Proofs.Command.Prices
import PipeScript.Proofs.Disk.ReadBack
import PipeScript.Proofs.Command.Files
import PipeScript.Proofs.Execution.Totals
import PipeScript.Proofs.Crypto.Rows
import PipeScript.Proofs.Crypto.Queries
import PipeScript.Proofs.Command.Requests
import PipeScript.Proofs.CommandLine.Scripts
import PipeScript.Proofs.Binary64.Shortest
import PipeScript.Proofs.Json.Decimals
import PipeScript.Proofs.Cache.Decoding
import PipeScript.Proofs.Execution.Unwinding
