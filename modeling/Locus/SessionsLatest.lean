import Mathlib.Data.List.Find
import Locus.ClientDataManagerDuplicates
import Locus.SessionsNames

set_option autoImplicit false

/- The last packets that were queued for a follower about each client that it follows, against
the marks of its watchers. -/
namespace Locus

open Transition

/-- The last entry of a kind. -/
def latest {α : Type} (kind : α → Bool) (entries : List α) : Option α :=
  entries.reverse.find? kind

section Latest

variable {α : Type} {kind : α → Bool} {entries more : List α} {entry : α}

end Latest

namespace ClientDataManager

end ClientDataManager

namespace Server

open ClientDataManager

section Kinds

variable {owner : Int16} {turn : Turn}

end Kinds

/-- What `update()` makes of its two queries. -/
def newsOf (turn : Turn) (names : List (Int16 × Bytes)) (positions : List (Int16 × Position)) :
    List (PacketType × Bytes) :=
  (names.map (ProtocolClient.followedPacket turn) ++
    positions.map ProtocolClient.locationPacket).map Packet.content

section News

variable {turn : Turn} {names : List (Int16 × Bytes)} {positions : List (Int16 × Position)}
  {owner : Int16}

theorem mem_newsOf {content : PacketType × Bytes} : content ∈ newsOf turn names positions ↔
    (∃ news ∈ names, (ProtocolClient.followedPacket turn news).content = content) ∨
      ∃ news ∈ positions, (ProtocolClient.locationPacket news).content = content := by
  simp only [newsOf, List.map_append, List.map_map, List.mem_append, List.mem_map,
    Function.comp_apply]

end News

section Steps

variable {told : Int16 → List (PacketType × Bytes)}
  {toldNames : Int16 → List ((Int16 × Bytes) × Packet)} {before after : Database} {op : Op}
  {reply : Reply}

variable {caller : Int16} {turn : Turn} {names : List (Int16 × Bytes)}
  {positions : List (Int16 × Position)}

end Steps

variable {Key : Type} {lib : CryptoLibrary Key}

/-- The packets that were queued for a client, oldest first. -/
def queuedFor (events : List Event) (id : Int16) : List (PacketType × Bytes) :=
  (events.flatMap (Event.queued id)).map Packet.content

theorem queuedFor_snoc (events : List Event) (event : Event) (id : Int16) :
    queuedFor (events ++ [event]) id =
      queuedFor events id ++ (event.queued id).map Packet.content := by
  simp only [queuedFor, List.flatMap_append, List.flatMap_singleton, List.map_append]

end Server

end Locus
