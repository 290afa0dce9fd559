import WasiLibc.DescriptorTable.Correct
import WasiLibc.Directory.Copies
import WasiLibc.Directory.Neutral
import WasiLibc.Directory.Seek
import WasiLibc.Directory.Vanish
import WasiLibc.File.Append
import WasiLibc.File.SharedOffset
import WasiLibc.Futex.Correct
import WasiLibc.Mman.Mmap
import WasiLibc.Netdb.Leaks
import WasiLibc.Object.Correct
import WasiLibc.Path.TrailingSlashes
import WasiLibc.Path.Utf8
import WasiLibc.Pipe.Ready
import WasiLibc.Poll.Durations
import WasiLibc.Poll.Empty
import WasiLibc.Poll.FdSets
import WasiLibc.Poll.Hangups
import WasiLibc.Poll.Transparent
import WasiLibc.Random.Uniform
import WasiLibc.Registration.Correct
import WasiLibc.Stream.Nonblocking
import WasiLibc.Task.Isolation
import WasiLibc.Thread.Create
import WasiLibc.Time.Nanosleep
import WasiLibc.Udp.Receives
