import GreenBag.Programs
import GreenBag.Machines
import GreenBag.Loops
import GreenBag.Buffers
import GreenBag.Escaping
import GreenBag.Base64
import GreenBag.Authorizing
import GreenBag.Linked
import GreenBag.Sorts
import GreenBag.Hidden
import GreenBag.Ranges
import GreenBag.Schedules
import GreenBag.Doubles
import GreenBag.Cuts
import GreenBag.Words
import GreenBag.State
import GreenBag.Chunks
import GreenBag.Sorting
import GreenBag.Offset
import GreenBag.Player
import GreenBag.Energy
import GreenBag.Subsegments
import GreenBag.Inorder
import GreenBag.Http
import GreenBag.Connections
import GreenBag.Planning
import GreenBag.Algorithm
import GreenBag.Session
import GreenBag.Segments
import GreenBag.Invariants
import GreenBag.Conditions
import GreenBag.Guess
import GreenBag.Quiet
import GreenBag.Choosing
import GreenBag.Frames
import GreenBag.Receiving
import GreenBag.Stealing
import GreenBag.Sharing
import GreenBag.Handing
import GreenBag.Sending
import GreenBag.Pushing
import GreenBag.Telling
import GreenBag.Finishing
import GreenBag.Handling
import GreenBag.Restarting
import GreenBag.Starting
import GreenBag.Coverage
import GreenBag.Requests
import GreenBag.Announcing
import GreenBag.Reconnecting
import GreenBag.Opening
import GreenBag.Bottleneck
import GreenBag.Splitting
import GreenBag.Balance
import GreenBag.Sizing
import GreenBag.Recovering
import GreenBag.Averaging
import GreenBag.Cheapest
import GreenBag.Hysteresis
import GreenBag.Tailing
import GreenBag.Silent
import GreenBag.Deciding
import GreenBag.Fitting
import GreenBag.Estimating
import GreenBag.Flagging
import GreenBag.Isolation
import GreenBag.Streaming
import GreenBag.Headers
import GreenBag.Urls
import GreenBag.Interfaces
import GreenBag.Listing
import GreenBag.Operating
import GreenBag.Dictionary
import GreenBag.Building
import GreenBag.Fields
import GreenBag.Probing
import GreenBag.Configuring
import GreenBag.Serving
import GreenBag.Costs
import GreenBag.Counting
import GreenBag.Completing
import GreenBag.Zooming
import GreenBag.Processing
import GreenBag.Relaying
import GreenBag.Owning
import GreenBag.Chaining
import GreenBag.Naming
import GreenBag.Proxying
import GreenBag.Answering
import GreenBag.Measuring
import GreenBag.Commanding
