import AgentGateway.Library.Json.Printing
import AgentGateway.Task.Packet

/-!
# The hash of a packet

The canonical text states every field of a packet.
-/

namespace AgentGateway.Task

open Json (Value LiteralNode)
open Utf8 (Bytes)

variable {F : Formats}

/-! ## Fields of the canonical text -/

theorem integer_injective {m n : ℤ} (h : integer m = integer n) : m = n := by
  unfold integer at h
  split_ifs at h with hm hn hn
  · simp only [Value.num.injEq, Json.Number.posInt.injEq] at h
    omega
  · simp at h
  · simp at h
  · simp only [Value.num.injEq, Json.Number.negInt.injEq] at h
    omega

theorem showUuid_injective
    (huuid : ∀ u, F.parseUuid (F.showUuid u) = some u) :
    Function.Injective F.showUuid := by
  intro u v h
  have hu := huuid u
  rw [h, huuid v, Option.some.injEq] at hu
  exact hu.symm

theorem uuid_injective (huuid : ∀ u, F.parseUuid (F.showUuid u) = some u) :
    Function.Injective (uuid F) := by
  intro u v h
  exact showUuid_injective huuid (Value.str.inj h)

theorem canonical_injective
    (huuid : ∀ u, F.parseUuid (F.showUuid u) = some u) :
    Function.Injective (ActiveDecision.canonical F) := by
  rintro ⟨id, title, summary, sources⟩ ⟨id', title', summary', sources'⟩ h
  simp only [ActiveDecision.canonical, Value.obj.injEq, List.cons.injEq,
    Prod.mk.injEq, Value.str.injEq, Value.arr.injEq, true_and, and_true] at h
  obtain ⟨hid, rfl, rfl, hsources⟩ := h
  rw [uuid_injective huuid hid,
    List.map_injective_iff.mpr (uuid_injective huuid) hsources]

/-! ## Numbers of the canonical text -/

/-- The numbers in the events of a packet, as in every value that serde_json
builds, are printed as literals of their own. -/
def LiteralEvents (p : RoomContextPacket) : Prop :=
  ∀ e ∈ p.events, e.Every LiteralNode

theorem literal_integer {p : RoomContextPacket} :
    (integer p.contextRevision).Every LiteralNode := by
  have hrange := p.revision_range
  unfold integer
  split_ifs with h
  · refine .num (Json.literal_of_isInteger ?_)
    have hlt : p.contextRevision.toNat < 2 ^ 64 := by omega
    exact hlt
  · refine .num (Json.literal_of_isInteger ?_)
    have hlt : 0 < p.contextRevision.natAbs ∧
        p.contextRevision.natAbs ≤ 2 ^ 63 := by
      omega
    exact hlt

theorem literal_canonicalPacket {p : RoomContextPacket}
    (h : LiteralEvents p) : (canonicalPacket F p).Every LiteralNode := by
  have hstr : ∀ s, (Value.str s).Every LiteralNode := fun _ => .str trivial
  have hdecision : ∀ d : ActiveDecision,
      (d.canonical F).Every LiteralNode := by
    intro d
    refine .obj trivial ?_
    simp only [List.forall_mem_cons, List.not_mem_nil, false_imp_iff,
      implies_true, and_true]
    refine ⟨hstr _, hstr _, hstr _, .arr trivial ?_⟩
    intro x hx
    obtain ⟨u, _, rfl⟩ := List.mem_map.mp hx
    exact hstr _
  refine .obj trivial ?_
  simp only [List.forall_mem_cons, List.not_mem_nil, false_imp_iff,
    implies_true, and_true]
  refine ⟨hstr _, hstr _, hstr _, hstr _, hstr _, literal_integer, hstr _,
    hstr _, hstr _, .arr trivial h, .arr trivial ?_⟩
  intro x hx
  obtain ⟨d, _, rfl⟩ := List.mem_map.mp hx
  exact hdecision d

/-! ## Packets of one hash -/

/-- What the hash of two packets is taken to tell apart: their canonical texts,
and the instants in them. -/
structure Distinguishes (F : Formats) (p q : RoomContextPacket) : Prop where
  collision : canonicalPacketSha256 F p = canonicalPacketSha256 F q →
    toVec (canonicalPacket F p) = toVec (canonicalPacket F q)
  issued : F.showTime p.issuedAt = F.showTime q.issuedAt →
    p.issuedAt = q.issuedAt
  expires : F.showTime p.expiresAt = F.showTime q.expiresAt →
    p.expiresAt = q.expiresAt

/-- Correctly hashed packets of one hash are equal. -/
theorem eq_of_hash (huuid : ∀ u, F.parseUuid (F.showUuid u) = some u)
    {p q : RoomContextPacket} (hpq : Distinguishes F p q)
    (hp : LiteralEvents p) (hq : LiteralEvents q)
    (hashp : canonicalPacketSha256 F p = p.canonicalSha256)
    (hashq : canonicalPacketSha256 F q = q.canonicalSha256)
    (h : p.canonicalSha256 = q.canonicalSha256) : p = q := by
  have hhash : canonicalPacketSha256 F p = canonicalPacketSha256 F q := by
    rw [hashp, hashq, h]
  have hbytes := hpq.collision hhash
  have hprint := Utf8.encode_injective hbytes
  have hvalue : canonicalPacket F p = canonicalPacket F q :=
    Json.print_injective (literal_canonicalPacket hp)
      (literal_canonicalPacket hq) hprint
  simp only [canonicalPacket, Value.obj.injEq, List.cons.injEq, Prod.mk.injEq,
    true_and, and_true, Value.str.injEq, Value.arr.injEq] at hvalue
  obtain ⟨htask, hroom, hrequester, hagent, hskill, hrevision, hissued,
    hexpires, hinput, hevents, hdecisions⟩ := hvalue
  have hinj := uuid_injective huuid
  exact RoomContextPacket.ext (hinj htask) (hinj hroom) (hinj hrequester)
    (hinj hagent) hskill (integer_injective hrevision) (hpq.issued hissued)
    (hpq.expires hexpires) hinput hevents
    (List.map_injective_iff.mpr (canonical_injective huuid) hdecisions) h

end AgentGateway.Task
