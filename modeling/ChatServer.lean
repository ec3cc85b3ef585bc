import ChatServer.Closing
import ChatServer.Draining
import ChatServer.Fetching
import ChatServer.Grace
import ChatServer.Identifiers
import ChatServer.LiveOrder
import ChatServer.Lives
import ChatServer.Logger
import ChatServer.Notices
import ChatServer.Origins
import ChatServer.Outgoing
import ChatServer.Preflight
import ChatServer.Presence
import ChatServer.PrivateHistory
import ChatServer.QueryString
import ChatServer.Refusals
import ChatServer.Requests
import ChatServer.Returns
import ChatServer.Sending
import ChatServer.Sessions
import ChatServer.Targets
import ChatServer.Termination
import ChatServer.UserList
