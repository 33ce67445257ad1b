import FastTransfer.Lib.Runs
import FastTransfer.Lib.BigEndian
import FastTransfer.Lib.Tiling
import FastTransfer.Lib.Tally
import FastTransfer.Lib.Reassembly
import FastTransfer.Lib.Framing
import FastTransfer.Lib.Filling
import FastTransfer.Lib.Paths
import FastTransfer.Web.Chunks
import FastTransfer.Web.Receiver
import FastTransfer.Web.ReceiverInvariant
import FastTransfer.Web.ReceiverRuns
import FastTransfer.Web.ServiceWorker
import FastTransfer.Web.StreamContent
import FastTransfer.Web.Downloader
import FastTransfer.Web.Sender
import FastTransfer.Web.SenderMoves
import FastTransfer.Web.SenderChunks
import FastTransfer.Web.SenderDrain
import FastTransfer.Web.SenderWork
import FastTransfer.Web.PumpEnds
import FastTransfer.Web.ReadBatch
import FastTransfer.Web.Transfer
import FastTransfer.Web.LossyTransfer
import FastTransfer.Web.SavedDownload
import FastTransfer.Web.Offers
import FastTransfer.Web.Candidates
import FastTransfer.Web.CandidateRuns
import FastTransfer.Server.WsRelay
import FastTransfer.Server.RelayHub
import FastTransfer.Server.RelayLoops
import FastTransfer.Server.RelaySessions
import FastTransfer.Server.RelayEnds
import FastTransfer.Server.RelayIsolation
import FastTransfer.Server.RelayOrder
import FastTransfer.Server.RelayKeys
import FastTransfer.Server.RelayMeeting
import FastTransfer.Server.RoomIds
import FastTransfer.Server.TcpRelay
import FastTransfer.Server.TcpRoles
import FastTransfer.Server.TcpPipe
import FastTransfer.Server.Signaling
import FastTransfer.Server.Rooms
import FastTransfer.Server.Presence
import FastTransfer.Server.Forwarding
import FastTransfer.Server.PeerJoined
import FastTransfer.Server.RoomLookup
import FastTransfer.Server.Calls
import FastTransfer.Cli.Protocol
import FastTransfer.Cli.Frames
import FastTransfer.Cli.OutputPath
import FastTransfer.Cli.Striped
import FastTransfer.Cli.StripedRuns
import FastTransfer.Cli.StripedTransfer
import FastTransfer.Cli.CutStreams
import FastTransfer.Cli.CutTransfer
import FastTransfer.Cli.TransferEnds
import FastTransfer.Cli.StreamIdentity
import FastTransfer.Cli.Signaling
import FastTransfer.Cli.Rendezvous
import FastTransfer.Cli.RendezvousRuns
import FastTransfer.Web.RelayedTransfer
import FastTransfer.Web.RelayedCompletes
