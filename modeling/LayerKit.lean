import LayerKit.Delivered
import LayerKit.Prompts
import LayerKit.Provider
import LayerKit.Server
import LayerKit.Shelves
import LayerKit.Advertised
import LayerKit.Liveness
import LayerKit.Fairness
import LayerKit.Conflicts
import LayerKit.Exactness
import LayerKit.Database
import LayerKit.Simulation
import LayerKit.Platform
import LayerKit.Footprint
import LayerKit.Concurrent
import LayerKit.Interleaving
import LayerKit.Untrusted
import LayerKit.Neutralize
import LayerKit.Isolation
import LayerKit.Visibility
import LayerKit.History
import LayerKit.Upgrade
import LayerKit.Timestamp
import LayerKit.Listing
import LayerKit.Ids
import LayerKit.Json
import LayerKit.Base64
import LayerKit.Auth
import LayerKit.Tokens
import LayerKit.Serve
import LayerKit.Frames
import LayerKit.Gate
import LayerKit.Catalogue
import LayerKit.JsonSchema
import LayerKit.Strict
import LayerKit.Reclosing
import LayerKit.Closing
import LayerKit.Positions
import LayerKit.Spared
import LayerKit.Ai
import LayerKit.Config
import LayerKit.Collect
import LayerKit.Requests
import LayerKit.Endpoints
import LayerKit.Tools
import LayerKit.Conversation
import LayerKit.Messages
import LayerKit.Replies
import LayerKit.Respond
import LayerKit.Accepted
import LayerKit.Dialects
import LayerKit.Accounting
import LayerKit.Failures
