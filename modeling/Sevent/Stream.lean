import Sevent.Basic

namespace Sevent.Stream

-- What one sevent_stream_write on an open stream can do to the layer above.
inductive WriteRes where
  -- queued, returns 0
  | ok
  -- nothing queued, no callback: SEVENT_ERR_NOMEM or SEVENT_ERR_INVAL
  | nomem
  | inval
  -- the stream is gone: on_error(err) runs before the call returns SEVENT_ERR_WRITE
  | failed (err : Int)
  -- the socket could not be registered again: on_close runs before the call returns, with 0
  -- (TCP, `accepted`) or SEVENT_ERR_INVAL (TLS)
  | torn (accepted : Bool)
  deriving DecidableEq, Repr

def WriteRes.ret : WriteRes → Int
  | .ok => Err.success
  | .nomem => Err.nomem
  | .inval => Err.inval
  | .failed _ => Err.write
  | .torn accepted => if accepted then Err.success else Err.inval

-- The stream object is idle again when the call returns.
def WriteRes.tears : WriteRes → Bool
  | .failed _ => true
  | .torn _ => true
  | _ => false

end Sevent.Stream
