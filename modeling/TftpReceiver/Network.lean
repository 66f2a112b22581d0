import Std.Async.Timer
import Std.Async.UDP
import TftpReceiver.Receiver

/-! Datagrams over the sockets of the host. -/

namespace TftpReceiver.Network

open Std.Async (Async Selectable Selector)
open Std.Async.UDP (Socket)

def endpoint : SocketAddress → Std.Net.SocketAddress
  | .v4 host port => .v4 { addr := .ofParts host.a host.b host.c host.d, port }
  | .v6 host _ port =>
    .v6 { addr := ⟨host.groups.toArray, by simp [host.length_eq]⟩, port }

def address : Std.Net.SocketAddress → SocketAddress
  | .v4 { addr, port } =>
    let octets := addr.octets
    .v4 ⟨octets[0], octets[1], octets[2], octets[3]⟩ port
  | .v6 { addr, port } => .v6 ⟨addr.segments.toList, by simp⟩ 0 port

def bind (address : SocketAddress) : IO Socket := do
  let socket ← Socket.mk
  socket.bind (endpoint address)
  return socket

def localAddress (socket : Socket) : IO SocketAddress :=
  return address (← socket.getSockName)

def send (socket : Socket) (target : SocketAddress) (packet : Bytes) : IO Unit :=
  (socket.send ⟨packet.toArray⟩ (some (endpoint target))).block

/-- The next datagram, unless none comes within a time in milliseconds. -/
def next? (socket : Socket) (patience : Option Nat) : IO (Option Arrival) :=
  Async.block do
    let arrival := socket.recvSelector (UInt64.ofNat Packet.receiveLimit)
    let received : Selectable (Option Arrival) := .case arrival fun (data, source) =>
      return source.map fun source => { source := address source, bytes := data.toList }
    match patience with
    | none => Selectable.one #[received]
    | some time =>
      let timer ← Selector.sleep (.ofNat time)
      Selectable.one #[received, .case timer fun _ => return none]

/-- How long, in milliseconds, the host may take to hand over what is already there. -/
def handover : Nat := 1

/-- All datagrams that are there, at most `limit` of them. -/
def pending (socket : Socket) : (limit : Nat) → IO (List Arrival)
  | 0 => return []
  | limit + 1 => do
    match ← next? socket (some handover) with
    | none => return []
    | some arrival => return arrival :: (← pending socket limit)

end TftpReceiver.Network
