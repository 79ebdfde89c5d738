import Rhizofs.Foundations.Program
import Rhizofs.Libc
import Rhizofs.Proto
import Rhizofs.Path
import Rhizofs.DataBlock
import Rhizofs.Foundations.LexicalPath
import Rhizofs.Fs.AttrCache
import Rhizofs.Server.Honesty
import Rhizofs.Server.Confinement
import Rhizofs.Foundations.Interleaving
import Rhizofs.Fs.Communicate
import Rhizofs.Fs.Replies
import Rhizofs.Foundations.ByteFile
import Rhizofs.Fs.Coherence
import Rhizofs.Fs.FileData
import Rhizofs.Fs.Payload
import Rhizofs.Fs.Session
import Rhizofs.Fs.Prefetch
import Rhizofs.Server.RegularFile
import Rhizofs.Server.Serve
import Rhizofs.Server.Buffers
import Rhizofs.Fs.Listing
import Rhizofs.Fs.Metadata
import Rhizofs.Fs.Users
import Rhizofs.Fs.CacheThreads
import Rhizofs.Fs.CacheCapacity
import Rhizofs.Fs.CacheDeletion
import Rhizofs.Fs.ReadYourWrites
import Rhizofs.Server.RefusedWrite
import Rhizofs.Foundations.LineReader
import Rhizofs.Server.Authorization
import Rhizofs.Fs.CacheEviction
import Rhizofs.Foundations.Ownership
import Rhizofs.Ownership.DataBlock
import Rhizofs.Ownership.Readdir
import Rhizofs.Ownership.Cache
import Rhizofs.Ownership.Response
import Rhizofs.Ownership.WellFormed
import Rhizofs.Foundations.Loop
import Rhizofs.Foundations.Lz4Block
import Rhizofs.Lz4.Compress
import Rhizofs.Lz4.Uncompress
import Rhizofs.Lz4.Library
import Rhizofs.Lz4.Completeness
import Rhizofs.Fs.Attributes
import Rhizofs.Fs.CommunicateErrors
import Rhizofs.Fs.Failures
import Rhizofs.Ownership.Lifecycle
import Rhizofs.Lz4.Stores
import Rhizofs.Lz4.Matches
import Rhizofs.Lz4.RoundTrip
import Rhizofs.Foundations.Journal
import Rhizofs.Server.Workers
import Rhizofs.Server.Linearizable
import Rhizofs.Foundations.LinkedList
import Rhizofs.Kazlib.LinkedHash
import Rhizofs.Kazlib.Scan
import Rhizofs.Kazlib.FiniteMap
import Rhizofs.Fs.CacheMemory
import Rhizofs.Fs.Transparent
import Rhizofs.Fs.Deployment
import Rhizofs.Fs.Staleness
