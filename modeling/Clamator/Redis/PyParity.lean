import Clamator.Protocol.Accepted
import Clamator.Redis.Parity

/-!
# Python calls over memory and over Redis (`over_memory/transport.py`, `over_redis`)

How `RpcClientCore.call` ends over either transport where no deadline passes, nothing is cancelled
from outside and no command of Redis fails. What `json.dumps` writes `json.loads` reads back as it
was, so the two differ only where something is not answered or cannot be written.
-/

namespace Clamator.Redis
open Clamator.Base Clamator.Protocol
open Clamator.Base.JsonTree (member)

end Clamator.Redis
