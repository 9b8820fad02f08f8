import Rustwall.Wire.Bytes
import Rustwall.Wire.Ethernet
import Rustwall.Wire.Ipv4
import Rustwall.Wire.Udp
import Rustwall.Config
import Rustwall.Driver.Rx
import Rustwall.Driver.Buffers
import Rustwall.Reassembly.FragmentSet
import Rustwall.Pipeline.Fragmenter
import Rustwall.Pipeline.Udp
import Rustwall.Pipeline.Ipv4
import Rustwall.Pipeline.Ethernet
import Rustwall.Proofs.Fragmenter
import Rustwall.Proofs.Udp
import Rustwall.Proofs.Reassembly
import Rustwall.Proofs.Firewall
import Rustwall.Proofs.Queue
import Rustwall.Proofs.RoundTrip
import Rustwall.Proofs.Trailer
import Rustwall.Proofs.Forwarding
import Rustwall.Proofs.Table
