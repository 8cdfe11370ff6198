import GwzTransport.Stream.Quiescence
import GwzTransport.Stream.Wakeup
import GwzTransport.Stream.Deadlines
import GwzTransport.Stream.Budgets
import GwzTransport.Stream.Honest
import GwzTransport.Pool.Links
import GwzTransport.Pool.History
import GwzTransport.Pool.Capacity
import GwzTransport.Pool.Expiry
import GwzTransport.Pool.Isolation
import GwzTransport.Pool.Stop
import GwzTransport.Pool.Cancel
import GwzTransport.Pool.Fifo
import GwzTransport.Endpoint.Cancellation
import GwzTransport.Codec.Escapes
import GwzTransport.Mux.Bootstrap
import GwzTransport.Mux.Backpressure
import GwzTransport.Mux.Identity
import GwzTransport.Mux.Overdue
import GwzTransport.Remote.Notes
import GwzTransport.Remote.Spelling
import GwzTransport.Sequenced.Room
import GwzTransport.Sequenced.Gap
import GwzTransport.Sequenced.Sender
import GwzTransport.Connection.Accounts
import GwzTransport.Connection.Retention
import GwzTransport.Connection.Waiters
