import BasicWebserver.RocExecutor.Accounting
import BasicWebserver.BrotliExecutor.Refinement
import BasicWebserver.Http2.Transmission
import BasicWebserver.Sqlite.Atomicity
import BasicWebserver.Response.Application
import BasicWebserver.NativeRouter.Confinement
import BasicWebserver.RequestBody.Stream
import BasicWebserver.BodySink.Publication
import BasicWebserver.RequestTarget.Grammar
import BasicWebserver.RequestParts.Slices
import BasicWebserver.RocAlloc.Runs
import BasicWebserver.Platform.Url.Spelling
import BasicWebserver.Platform.Sse
import BasicWebserver.Platform.Html
import BasicWebserver.Platform.OsStr.Identity
import BasicWebserver.Platform.Path.Names
import BasicWebserver.Platform.Url.Ipv6
import BasicWebserver.Platform.FormUrlEncoded
import BasicWebserver.Platform.Multipart.Contents
import BasicWebserver.Platform.Multipart.Boundary
import BasicWebserver.RequestBody.ReadingSteps
import BasicWebserver.FileServer.Ranges
import BasicWebserver.FileServer.Variants
import BasicWebserver.RocAbi.Arguments
import BasicWebserver.RocAbi.Bindings
import BasicWebserver.Transport.ReadUntil
import BasicWebserver.Platform.UnixTime
import BasicWebserver.Cmd.Capture
import BasicWebserver.Shutdown.Draining
import BasicWebserver.Telemetry.Completion
import BasicWebserver.Server.HandleReq
import BasicWebserver.FileServer.Tags
import BasicWebserver.Telemetry.Histogram
import BasicWebserver.Compression.Recycler
