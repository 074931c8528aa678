import Sandstorm.Binary.Word
import Sandstorm.Binary.Semantics
import Sandstorm.Binary.Bytes
import Sandstorm.Binary.Reader
import Sandstorm.Binary.Registers
import Sandstorm.Binary.MemoryTrace
import Sandstorm.Binary.Builtins
import Sandstorm.Binary.AuxInput
import Sandstorm.Binary.Canonical
import Sandstorm.Binary.AuxInputFormat
import Sandstorm.Binary.Program
import Sandstorm.Ecdsa.Curve
import Sandstorm.Ecdsa.BaseField
import Sandstorm.Ecdsa.ScalarMult
import Sandstorm.Ecdsa.Trace
import Sandstorm.Ecdsa.Reference
import Sandstorm.Ecdsa.Air
