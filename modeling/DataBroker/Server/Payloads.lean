import DataBroker.Lib.Utf8
import DataBroker.Queue.Basic

/-!
# Payloads

The configuration that `UpdateQ` carries, and the statistics that `NetStats` is answered with.
-/

namespace DataBroker

structure NetQueueConfig where
  autoFail : Option Bool
  failTimeout : Option U64
deriving DecidableEq, Repr

/-- `NetQueueConfig::from_be_bytes`: a byte of flags, and the fields that the flags announce. The
second component is the number of bytes read. -/
def NetQueueConfig.fromBeBytes : Bytes → Except IoError (NetQueueConfig × ℕ)
  | [] => .error (invalidData "empty bytes")
  | flags :: rest => do
    let bytes := flags :: rest
    let offset := 1
    let (autoFail, offset) ←
      if flags &&& 1 ≠ 0 then
        if bytes.length < 1 + offset then .error (invalidData "invalid bytes auto_success")
        else .ok (some (bytes.getD offset 0 != 0), offset + 1)
      else .ok (none, offset)
    let (failTimeout, offset) ←
      if flags &&& 2 ≠ 0 then
        if bytes.length < 8 + offset then .error (invalidData "invalid bytes success_timeout")
        else .ok (some (BigEndian.toBitVec 8 ((bytes.drop offset).take 8)), offset + 8)
      else .ok (none, offset)
    return (⟨autoFail, failTimeout⟩, offset)

/-- What `UpdateQ` does with its configuration: a field that is missing stays as it was. -/
def Queue.updateConfig (config : NetQueueConfig) : QueueM Unit := modify fun s =>
  { s with config :=
      ⟨config.autoFail.getD s.config.autoFail, config.failTimeout.getD s.config.failTimeout⟩ }

structure StatMessage where
  queueName : String
  totalMessages : ℕ
  totalBytes : ℕ
  totalMessagesLocked : ℕ
  totalBytesLocked : ℕ
deriving DecidableEq, Repr

def StatMessage.toBytes (s : StatMessage) : Bytes :=
  let name := Utf8.encode s.queueName
  BigEndian.toBytes 2 name.length ++ name ++ BigEndian.toBytes 8 s.totalMessages ++
    BigEndian.toBytes 8 s.totalBytes ++ BigEndian.toBytes 8 s.totalMessagesLocked ++
    BigEndian.toBytes 8 s.totalBytesLocked

/-- `StatWatcher`: one entry for each queue. -/
abbrev StatWatcher := List StatMessage

def StatWatcher.toBytes (watcher : StatWatcher) : Bytes :=
  BigEndian.toBytes 4 watcher.length ++
    watcher.flatMap fun s => BigEndian.toBytes 4 s.toBytes.length ++ s.toBytes

end DataBroker
