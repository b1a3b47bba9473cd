import Locus.ClientDataManager
import Locus.Transition
import Locus.ClientDataManagerStep
import Locus.ClientDataManagerFollow
import Locus.ClientDataManagerRegister
import Locus.ClientDataManagerNames
import Locus.ClientDataManagerNews
import Locus.ClientDataManagerWatchers
import Locus.ClientDataManagerMissing
import Locus.ClientDataManagerEntries
import Locus.ClientDataManagerPositions
import Locus.ClientDataManagerDuplicates
import Locus.Comparison
import Locus.ClientDataOrder
import Locus.DatabaseFile
import Locus.Buffer
import Locus.BufferDeque
import Locus.ClientBuffer
import Locus.ClientBufferRecv
import Locus.ClientBufferSend
import Locus.Packet
import Locus.CryptoModule
import Locus.CryptoModuleLoop
import Locus.ProtocolClient
import Locus.ProtocolClientStep
import Locus.ProtocolClientStable
import Locus.ProtocolClientRun
import Locus.ProtocolClientCipher
import Locus.ProtocolClientCalls
import Locus.ProtocolClientClosing
import Locus.ProtocolClientHandshake
import Locus.ProtocolClientLocation
import Locus.Sessions
import Locus.SessionsStep
import Locus.SessionsHandlers
import Locus.SessionsQueues
import Locus.SessionsNews
import Locus.SessionsPackets
import Locus.SessionsNames
import Locus.SessionsOutbound
import Locus.BlockingQueue
import Locus.BlockingQueueTraffic
import Locus.BlockingQueueFailures
import Locus.BlockingQueueOrder
import Locus.EdgeTriggered
import Locus.EPollManager
import Locus.ClientBufferEdges
import Locus.ClientBufferPieces
import Locus.ClientBufferStages
import Locus.ClientManager
import Locus.ClientManagerErase
import Locus.CipherModule
import Locus.JavaPackets
import Locus.PacketRoundTrip
import Locus.EncryptedMessengerBlocks
import Locus.WireFormats
import Locus.JavaPacketsNames
import Locus.SimpleMessengerStream
import Locus.JavaClient
import Locus.ProtocolClientFrames
import Locus.Dialogue
import Locus.JavaClientPhases
import Locus.CipherAgreement
import Locus.Threads
import Locus.ThreadsReferences
import Locus.ThreadsQueues
import Locus.ThreadsLifetimes
import Locus.DatabaseLifetimes
import Locus.Assignment
import Locus.Sharing
import Locus.ClientDataManagerSharing
import Locus.SessionsLatest
import Locus.SessionsConvergence
import Locus.LastValue
import Locus.Service
import Locus.ServiceHandlers
import Locus.ServiceCommutes
import Locus.ServiceStep
import Locus.ServiceRefinement
import Locus.ServiceProvenance
import Locus.ServiceFaults
import Locus.ServiceSessions
import Locus.ServiceAuthority
import Locus.Fifo
import Locus.Downlink
import Locus.Uplink
import Locus.ClientManagerDescriptors
import Locus.ThreadsShutdown
import Locus.JavaClientWaits
import Locus.ServiceReplies
