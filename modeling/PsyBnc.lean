import PsyBnc.Lib.CString
import PsyBnc.Lib.Scanf
import PsyBnc.Lib.Run
import PsyBnc.Lib.Splice
import PsyBnc.Lib.Buffer
import PsyBnc.Lib.Lines
import PsyBnc.Lib.Cyclic
import PsyBnc.Lib.Glob
import PsyBnc.Lib.Words
import PsyBnc.Lib.Fifo
import PsyBnc.Lib.Flood
import PsyBnc.Lib.Feistel
import PsyBnc.Lib.Packed
import PsyBnc.Lib.Rank
import PsyBnc.Lib.Lookup
import PsyBnc.PString
import PsyBnc.Wildcard.Match
import PsyBnc.Wildcard.Compare
import PsyBnc.Network.ParentNick
import PsyBnc.Network.Names
import PsyBnc.Network.ModeLine
import PsyBnc.Network.Token
import PsyBnc.Accounts.NetworkNames
import PsyBnc.Inifunc.Clear
import PsyBnc.Inifunc.Store
import PsyBnc.Inifunc.Count
import PsyBnc.Inifunc.File
import PsyBnc.Inifunc.Servers
import PsyBnc.Inifunc.ServerList
import PsyBnc.Inifunc.ServerEffects
import PsyBnc.Parse.Model
import PsyBnc.Parse.Server
import PsyBnc.Socket.Model
import PsyBnc.Socket.Receive
import PsyBnc.Socket.Sendq
import PsyBnc.Socket.Accounting
import PsyBnc.Socket.Order
import PsyBnc.Socket.Group
import PsyBnc.Socket.Stone
import PsyBnc.Crypt
import PsyBnc.UChannel.Model
import PsyBnc.UChannel.MemberModes
import PsyBnc.UChannel.NamesReply
import PsyBnc.UChannel.Members
import PsyBnc.UChannel.Slots
import PsyBnc.UChannel.Load
import PsyBnc.UChannel.Persist
import PsyBnc.UChannel.Grammar
import PsyBnc.UChannel.ModeString
import PsyBnc.UChannel.Secret
import PsyBnc.Blowfish.Tables
import PsyBnc.Blowfish.Model
import PsyBnc.Blowfish.Published
import PsyBnc.Blowfish.Evaluate
import PsyBnc.Blowfish.Rounds
import PsyBnc.Blowfish.Text
import PsyBnc.Intnet.Model
import PsyBnc.Intnet.Relay
import PsyBnc.Intnet.Network
import PsyBnc.Intnet.Wire
import PsyBnc.Intnet.Inbound
import PsyBnc.Intnet.Interpret
import PsyBnc.Intnet.Shared
import PsyBnc.Intnet.Burst
import PsyBnc.Intnet.Agreement
import PsyBnc.Intnet.Leave
import PsyBnc.Intnet.Nick
import PsyBnc.Intnet.Removal
import PsyBnc.Intnet.Invite
import PsyBnc.Intnet.ModeSigns
import PsyBnc.Intnet.ModeLocal
import PsyBnc.Intnet.ModeReplay
import PsyBnc.Intnet.ModeLoop
import PsyBnc.Intnet.OpVoice
import PsyBnc.Server.Model
import PsyBnc.Server.Join
import PsyBnc.Server.Reply
import PsyBnc.Server.Modes
import PsyBnc.Lib.Fermat
import PsyBnc.Lib.Cascade
import PsyBnc.Idea.Model
import PsyBnc.Idea.Inverse
import PsyBnc.Idea.Text
import PsyBnc.StringList.Model
import PsyBnc.StringList.Persist
import PsyBnc.StringList.Slots
import PsyBnc.Memory.Model
import PsyBnc.Memory.Cache
import PsyBnc.Inifunc.Fields
import PsyBnc.Userfile.Link
import PsyBnc.Userfile.User
import PsyBnc.Userfile.Hash
import PsyBnc.Peer.Login
import PsyBnc.Peer.Lockout
import PsyBnc.Peer.Password
import PsyBnc.Lib.Forest
import PsyBnc.Accounts.Commands
import PsyBnc.Accounts.Sound
import PsyBnc.Accounts.Families
import PsyBnc.Accounts.Owner
import PsyBnc.Accounts.Members
import PsyBnc.Accounts.Rights
import PsyBnc.Dcc.Model
import PsyBnc.Dcc.Send
import PsyBnc.Dcc.Bots
import PsyBnc.Dcc.Reading
import PsyBnc.Dcc.Aligned
import PsyBnc.Dcc.Timeouts
import PsyBnc.Lib.SlotTree
import PsyBnc.Topology.Remove
import PsyBnc.Lib.Chain
import PsyBnc.Socket.Kill
import PsyBnc.Party.Model
import PsyBnc.Party.Fanout
import PsyBnc.Party.Remote
import PsyBnc.Party.History
import PsyBnc.Server.Op
import PsyBnc.Server.Quit
import PsyBnc.Lib.Numbered
import PsyBnc.Intnet.Join
import PsyBnc.Intnet.Saved
import PsyBnc.Intnet.Mine
import PsyBnc.Intnet.SavedRuns
import PsyBnc.Intnet.Rejoin
import PsyBnc.Talk.Model
import PsyBnc.Talk.EndToEnd
import PsyBnc.Lib.Latest
import PsyBnc.Lib.Roster
import PsyBnc.Intnet.Bans
import PsyBnc.PString.Nobreak
import PsyBnc.Idea.Coding
import PsyBnc.Lib.Formats
import PsyBnc.Inifunc.Allocate
import PsyBnc.Vita.Select
import PsyBnc.Log.Traffic
import PsyBnc.Log.Range
import PsyBnc.Network.TokenCommand
import PsyBnc.Lib.Presence
import PsyBnc.UChannel.Ready
import PsyBnc.Server.Rows
import PsyBnc.Server.World
import PsyBnc.Server.Mirror
import PsyBnc.Server.Told
import PsyBnc.Lib.Refine
import PsyBnc.Lib.Roles
import PsyBnc.Network.AddToken
import PsyBnc.Network.Retell
import PsyBnc.Network.Shown
import PsyBnc.Network.ShownNames
import PsyBnc.Network.Client
