import Shadowsocks.Bytes
import Shadowsocks.Interfaces
import Shadowsocks.Writer
import Shadowsocks.Chunks
import Shadowsocks.WriterSpec
import Shadowsocks.WriterCalls
import Shadowsocks.Termination
import Shadowsocks.Emission
import Shadowsocks.WireFormat
import Shadowsocks.History
import Shadowsocks.Chunking
import Shadowsocks.Reader
import Shadowsocks.Converter
import Shadowsocks.Lossless
import Shadowsocks.ReaderSteps
import Shadowsocks.ReaderSpec
import Shadowsocks.Accepted
import Shadowsocks.ReaderErrors
import Shadowsocks.Delivered
import Shadowsocks.RoundTrip
import Shadowsocks.CipherList
import Shadowsocks.Counter
import Shadowsocks.Buffers
import Shadowsocks.Handed
import Shadowsocks.Flushing
import Shadowsocks.CallResults
