import Sevent.Ws.Steps

-- No message is delivered on a connection that is over.
namespace Sevent.Ws

variable {σ δ : Type}

-- on_message and on_pong only before on_close, on_error and the user's close.
def NoLateDelivery (log : List Event) : Prop :=
  Trace.AtEach (fun past e => e.delivery = true → ¬ Terminated past) log

instance decidableNoLateDelivery (log : List Event) : Decidable (NoLateDelivery log) :=
  inferInstanceAs (Decidable (Trace.AtEach _ log))

namespace Conn

variable {env : Env σ δ}

end Conn

end Sevent.Ws
