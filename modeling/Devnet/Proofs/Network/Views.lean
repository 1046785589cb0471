import Devnet.Proofs.Consensus.Members
import Devnet.Proofs.Genesis.Spelled
import Devnet.Proofs.Network.Build
import Devnet.Proofs.Store.Export
import Mathlib

/-! What a network shows once it has been set up. The validators, their signers, the answer of the
application, its store and the genesis are views of one founding, and they agree. -/

namespace Devnet

namespace Network

namespace Founding

variable (f : Founding)

end Founding

end Network
end Devnet
