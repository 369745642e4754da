import PoseidonHttp.Client.Body
import PoseidonHttp.Conn.GoAway
import PoseidonHttp.Conn.RecvFlow
import PoseidonHttp.Conn.SendPaths
import PoseidonHttp.Conn.SlotAccounting
import PoseidonHttp.Conn.WriteBatcher
import PoseidonHttp.Grpc.Outcome
import PoseidonHttp.Hpack.Fragments
import PoseidonHttp.Hpack.TableRuns
import PoseidonHttp.Http1.Watchdog
import PoseidonHttp.Http3.Acknowledgments
import PoseidonHttp.Http3.InstructionStreams
import PoseidonHttp.Http3.References
import PoseidonHttp.PoolCore.Waiters
import PoseidonHttp.Qpack.Protocol
import PoseidonHttp.Quic.AckExchange
import PoseidonHttp.Quic.Datagram
import PoseidonHttp.Quic.FinalSize
import PoseidonHttp.Quic.FrameRoundTrip
import PoseidonHttp.Quic.Listener
import PoseidonHttp.Quic.MaxFilter
import PoseidonHttp.Quic.Pacer
import PoseidonHttp.Quic.Reassembly
import PoseidonHttp.Quic.RecvCredit
import PoseidonHttp.Quic.Retransmission
import PoseidonHttp.Quic.ServerCrypto
import PoseidonHttp.Quic.StreamCredit
import PoseidonHttp.Secrecy
