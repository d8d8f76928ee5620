import VoxPopuli.Misc

/-! # The radio side of a remote

Messages for a remote wait in `_safeSendMap`, one for each key, and leave one at
a time in key order. What arrives from it is cut at the end markers; an unfinished
message waits in `rxBuffer`.
-/

namespace VoxPopuli

structure XBeeRemote where
  addr : List Byte
  safeSendMap : SortedMap StdString StdString := ∅
  rxBuffer : StdString := []
  /-- `_remoteModel`, as the number of the object it points to. -/
  remoteModel : Option Nat := none

namespace XBeeRemote

/-- The frame of a message: its type, its payload and the end marker. -/
def prepareMsg (type : XBEE_MSG_TYPE) (data : HexData) : StdString :=
  [type.code] ++ data.strData ++ [XBEE_MSG_TYPE.FRAME_END.code]

def safeSendMsg (r : XBeeRemote) (key : StdString) (type : XBEE_MSG_TYPE) (data : HexData) :
    XBeeRemote :=
  { r with safeSendMap := r.safeSendMap.insert key (prepareMsg type data) }

/-- The message which is handed to `sendTX`, if one is waiting. It leaves the map
    whatever the transmission returns. -/
def tick (r : XBeeRemote) : Option StdString × XBeeRemote :=
  match r.safeSendMap.entries with
  | [] => (none, r)
  | (key, msg) :: _ => (some msg, { r with safeSendMap := r.safeSendMap.erase key })

/-- The loop of `receiveRX` with `buf`: the messages which end and what is left. Empty
    messages are passed over. -/
def splitRX (buf : StdString) : StdString → List StdString × StdString
  | [] => ([], buf)
  | b :: rest =>
      if b = XBEE_MSG_TYPE.FRAME_END.code then
        if buf = [] then splitRX buf rest
        else
          let (msgs, left) := splitRX [] rest
          (buf :: msgs, left)
      else splitRX (buf ++ [b]) rest

end XBeeRemote

end VoxPopuli
