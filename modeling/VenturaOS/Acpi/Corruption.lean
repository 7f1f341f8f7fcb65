import Mathlib
import VenturaOS.Acpi.RootWalk
import VenturaOS.Acpi.RoundTrip

/-!
# One corrupted byte

A sum modulo 256 changes with each of its bytes. `init` sums the first twenty
bytes of the RSDP, the root table and the MADT before it relies on them; the
address of the XSDT lies behind those twenty bytes.
-/
namespace VenturaOS.Acpi
open Library Memory

section Bytes

variable {m : U64 → UInt8} {addr a : U64} {b : UInt8} {n o k : ℕ}

theorem mem_addressesFrom_iff (hn : n ≤ 2 ^ 64) : a ∈ addressesFrom addr n ↔ InTable addr n a := by
  rw [mem_addressesFrom]
  constructor
  · rintro ⟨k, hk, rfl⟩
    rw [InTable, distance_add, distance_self, BitVec.toNat_ofNat]
    omega
  · intro h
    refine ⟨distance addr a, h, ?_⟩
    rw [distance, BitVec.ofNat_toNat, BitVec.setWidth_eq, BitVec.add_comm, BitVec.sub_add_cancel]

theorem addressesFrom_nodup (hn : n ≤ 2 ^ 64) : (addressesFrom addr n).Nodup := by
  apply List.Nodup.map_on _ List.nodup_range
  intro i hi j hj he
  rw [List.mem_range] at hi hj
  have hvalue := congrArg BitVec.toNat ((BitVec.add_right_inj _).mp he)
  rw [BitVec.toNat_ofNat, BitVec.toNat_ofNat, Nat.mod_eq_of_lt (by omega), Nat.mod_eq_of_lt (by omega)] at hvalue
  exact hvalue

theorem distance_step (addr e a : U64) : distance addr a = (distance addr e + distance e a) % 2 ^ 64 := by
  have hsum : e + (a - e) = a := by rw [BitVec.add_comm, BitVec.sub_add_cancel]
  have hstep : distance addr (e + (a - e)) = (distance addr e + distance e a) % 2 ^ 64 := distance_add (a - e)
  rw [hsum] at hstep
  exact hstep

theorem inTable_field (ho : o + k ≤ 2 ^ 32) (h : InTable (addr + BitVec.ofNat 64 o) k a) :
    o ≤ distance addr a ∧ distance addr a < o + k := by
  have hstart : distance addr (addr + BitVec.ofNat 64 o) = o := by
    rw [distance_add, distance_self, BitVec.toNat_ofNat]
    omega
  rw [InTable] at h
  rw [distance_step addr (addr + BitVec.ofNat 64 o) a, hstart]
  omega

theorem readBytes_update (hn : n ≤ 2 ^ 64) (h : ¬InTable addr n a) :
    (readBytes addr n).value (Function.update m a b) = (readBytes addr n).value m := by
  apply List.map_congr_left
  intro x hx
  have hne : x ≠ a := fun he => h ((mem_addressesFrom_iff hn).mp (he ▸ hx))
  exact Function.update_of_ne hne _ _

theorem checksumOk_update (hn : n ≤ 2 ^ 64) (h : ¬InTable addr n a) :
    (checksumOk addr n).value (Function.update m a b) = (checksumOk addr n).value m := by
  rw [checksumOk, Reads.value_map, Reads.value_map, readBytes_update hn h]

/-- A byte that occurs once moves the sum by its own change. -/
theorem sumBytes_update {l : List U64} (hl : l.Nodup) (ha : a ∈ l) :
    sumBytes (l.map (Function.update m a b)) + m a = sumBytes (l.map m) + b := by
  induction l with
  | nil => exact absurd ha List.not_mem_nil
  | cons x l ih =>
    obtain ⟨hx, hl⟩ := List.nodup_cons.mp hl
    rw [List.map_cons, List.map_cons, sumBytes_cons, sumBytes_cons]
    cases List.mem_cons.mp ha with
    | inl he =>
      subst he
      have hrest : l.map (Function.update m a b) = l.map m := by
        apply List.map_congr_left
        intro y hy
        have hne : y ≠ a := fun he => hx (he ▸ hy)
        exact Function.update_of_ne hne _ _
      rw [hrest, Function.update_self]
      grind
    | inr ha =>
      have hne : x ≠ a := fun he => hx (he ▸ ha)
      have hrest := ih hl ha
      rw [Function.update_of_ne hne]
      grind

/-- A checksum notices every change of one of its bytes. -/
theorem checksumOk_changed (hn : n ≤ 2 ^ 64) (h : InTable addr n a) (hb : b ≠ m a)
    (hok : (checksumOk addr n).value m = true) : (checksumOk addr n).value (Function.update m a b) = false := by
  have hsum := sumBytes_update (m := m) (b := b) (addressesFrom_nodup hn) ((mem_addressesFrom_iff hn).mpr h)
  have hzero : sumBytes ((addressesFrom addr n).map m) = 0 := eq_of_beq hok
  change (sumBytes ((addressesFrom addr n).map (Function.update m a b)) == 0) = false
  rw [beq_eq_false_iff_ne]
  intro hchanged
  rw [hzero, hchanged, UInt8.zero_add, UInt8.zero_add] at hsum
  exact hb hsum.symm

theorem take_readBytes (h : k ≤ n) : ((readBytes addr n).value m).take k = (readBytes addr k).value m := by
  rw [readBytes, readBytes, addressesFrom, addressesFrom, Reads.value_readAll, Reads.value_readAll, ← List.map_take,
    ← List.map_take, List.take_range, Nat.min_eq_left h]

theorem readHeader_update (h : 8 ≤ distance addr a) :
    (readHeader addr).value (Function.update m a b) = (readHeader addr).value m := by
  have hread (m : U64 → UInt8) : (readHeader addr).value m = ⟨(readBytes addr 4).value m,
      BitVec.ofNat 32 (littleEndian ((readBytes (addr + BitVec.ofNat 64 4) 4).value m))⟩ := by
    rw [readHeader, Reads.value_map, SdtHeader.ofBytes, take_readBytes (by decide), field_readBytes (by decide)]
  rw [hread, hread, readBytes_update (by decide) fun hin => ?_, readBytes_update (by decide) fun hin => ?_]
  · have hfield := inTable_field (by decide) hin
    omega
  · rw [InTable] at hin
    omega

end Bytes

section Rsdp

variable (m : U64 → UInt8) (s : AcpiState)

/-- `Rsdp::length`, which is not looked at. -/
def rsdpLength : BitVec 32 := (readU32 (s.rsdpAddress + 20)).value m

/-- The RSDP is as its specification has it. -/
structure RsdpValid : Prop where
  address : s.rsdpAddress ≠ 0
  signature : (rsdpOf m s).signature = [0x52, 0x53, 0x44, 0x20, 0x50, 0x54, 0x52, 0x20]
  checksum : (checksumOk s.rsdpAddress 20).value m = true
  extended : 2 ≤ (rsdpOf m s).revision → (checksumOk s.rsdpAddress (rsdpLength m s).toNat).value m = true

def InXsdtAddress (a : U64) : Prop := 24 ≤ distance s.rsdpAddress a ∧ distance s.rsdpAddress a < 32

/-- A byte of the signature, the revision, `rsdt_address`, or `xsdt_address` where there is one. -/
def ReliedOn (a : U64) : Prop :=
  distance s.rsdpAddress a < 8 ∨ distance s.rsdpAddress a = 15 ∨
    16 ≤ distance s.rsdpAddress a ∧ distance s.rsdpAddress a < 20 ∨ 2 ≤ (rsdpOf m s).revision ∧ InXsdtAddress s a

variable {m s} {a : U64} {b : UInt8} {fuel : ℕ}

theorem rsdpOf_eq (m : U64 → UInt8) (s : AcpiState) : rsdpOf m s = ⟨(readBytes s.rsdpAddress 8).value m,
    UInt8.ofNat (littleEndian ((readBytes (s.rsdpAddress + BitVec.ofNat 64 15) 1).value m)),
    BitVec.ofNat 32 (littleEndian ((readBytes (s.rsdpAddress + BitVec.ofNat 64 16) 4).value m)),
    BitVec.ofNat 64 (littleEndian ((readBytes (s.rsdpAddress + BitVec.ofNat 64 24) 8).value m))⟩ := by
  have hsignature : ((readBytes s.rsdpAddress 36).value m).take 8 = (readBytes s.rsdpAddress 8).value m :=
    take_readBytes (by decide)
  rw [rsdpOf, readRsdp, Reads.value_map, Rsdp.ofBytes, hsignature, field_readBytes (by decide),
    field_readBytes (by decide), field_readBytes (by decide)]

/-- Only a change in the first twenty bytes is noticed. -/
theorem rsdpOk_changed (h : distance s.rsdpAddress a < 20) (hb : b ≠ m a)
    (hok : (checksumOk s.rsdpAddress 20).value m = true) (rsdp : Rsdp) :
    (rsdpOk s.rsdpAddress rsdp).value (Function.update m a b) = false := by
  rw [rsdpOk]
  split_ifs
  · exact checksumOk_changed (by decide) h hb hok
  · rfl

theorem rsdpOk_kept (h : 20 ≤ distance s.rsdpAddress a) :
    (rsdpOk s.rsdpAddress (rsdpOf (Function.update m a b) s)).value (Function.update m a b) =
      (rsdpOk s.rsdpAddress (rsdpOf m s)).value m := by
  have hsignature : (rsdpOf (Function.update m a b) s).signature = (rsdpOf m s).signature := by
    rw [rsdpOf_eq, rsdpOf_eq]
    exact readBytes_update (by decide) fun hin => by rw [InTable] at hin; omega
  rw [rsdpOk, rsdpOk, hsignature]
  split_ifs
  · exact checksumOk_update (by decide) fun hin => by rw [InTable] at hin; omega
  · rfl

/-- With its checksum passed, the RSDP is not what `init` complains about. -/
theorem init_not_badRsdp (haddress : s.rsdpAddress ≠ 0) (h : (rsdpOk s.rsdpAddress (rsdpOf m s)).value m = true) :
    (init fuel s).value m ≠ some (.error .badRsdpChecksum, s) := by
  cases hroot : (checksumOk (rootAddr m s) (rootLength m s).toNat).value m with
  | false =>
    rw [init_root_rejected haddress h hroot]
    intro he
    cases he
  | true =>
    rw [init_accepted ⟨haddress, h, hroot⟩]
    split_ifs
    · rw [Reads.value_pure]
      intro he
      cases he
    · rw [parseMadt, Reads.value_bind, Reads.value_bind]
      split_ifs
      · rw [Reads.value_pure]
        intro he
        cases he
      · rw [Reads.value_bind, Reads.value_bind, Reads.value_bind, Reads.value_pure]
        intro he
        obtain ⟨info, -, hsome⟩ := Option.map_eq_some_iff.mp he
        cases hsome

/-- A changed byte of a valid RSDP is noticed unless it belongs to `xsdt_address`. -/
theorem rsdp_detected_iff (h : RsdpValid m s) (ha : ReliedOn m s a) (hb : b ≠ m a) :
    (∀ fuel, (init fuel s).value (Function.update m a b) = some (.error .badRsdpChecksum, s)) ↔ ¬InXsdtAddress s a := by
  constructor
  · intro hdetected hin
    have hok : (rsdpOk s.rsdpAddress (rsdpOf m s)).value m = true := by
      rw [rsdpOk, if_pos h.signature, h.checksum]
    rw [← rsdpOk_kept (a := a) (b := b) (by have := hin.1; omega)] at hok
    exact init_not_badRsdp h.address hok (hdetected 0)
  · intro hout fuel
    have hsummed : distance s.rsdpAddress a < 20 := by
      cases ha with
      | inl hsignature => omega
      | inr ha =>
        cases ha with
        | inl hrevision => omega
        | inr ha =>
          cases ha with
          | inl hrsdt => omega
          | inr hxsdt => exact absurd hxsdt.2 hout
    exact init_rsdp_rejected h.address (rsdpOk_changed hsummed hb h.checksum _)

end Rsdp

section Tables

variable (m : U64 → UInt8) (s : AcpiState)

/-- The bytes of the structure for its revision. -/
def rsdpBytes : Set U64 := {a | InTable s.rsdpAddress (if 2 ≤ (rsdpOf m s).revision then 36 else 20) a}

def tableBytes (t : U64) : Set U64 := {a | InTable t (max sdtHeaderSize (tableLength m t).toNat) a}

/-- The tables that the root table has entries for. -/
def listed : List U64 :=
  (List.range (((rootLength m s).toNat - sdtHeaderSize) / entrySize (rsdpOf m s).useXsdt)).map fun i =>
    (readEntry (rsdpOf m s).useXsdt (rootAddr m s + BitVec.ofNat 64 sdtHeaderSize +
      BitVec.ofNat 64 (i * entrySize (rsdpOf m s).useXsdt))).value m

/-- `b"APIC"`. -/
def isMadt (t : U64) : Bool := decide (((readHeader t).value m).signature = [0x41, 0x50, 0x49, 0x43])

/-- The tables are disjoint, `madt` is the only MADT, and it and the root table are accepted. -/
structure Laid (madt : U64) : Prop where
  accepted : Accepted m s
  single : (listed m s).filter (isMadt m) = [madt]
  address : madt ≠ 0
  checksum : (checksumOk madt (tableLength m madt).toNat).value m = true
  apart : (rootAddr m s :: listed m s).Pairwise fun t u => Disjoint (tableBytes m t) (tableBytes m u)
  rsdp : ∀ t ∈ rootAddr m s :: listed m s, Disjoint (rsdpBytes m s) (tableBytes m t)

/-- A byte of a table behind its signature and its length. -/
def InBody (t a : U64) : Prop := 8 ≤ distance t a ∧ distance t a < (tableLength m t).toNat

variable {m s} {a t madt : U64} {b : UInt8} {fuel : ℕ}

theorem InBody.mem (h : InBody m t a) : a ∈ tableBytes m t := h.2.trans_le (le_max_right _ _)

/-- The last MADT listed is the one that is parsed. -/
theorem value_findMadt (xsdt : Bool) (entries : List U64) (d : U64) : (findMadt xsdt entries d).value m =
    ((entries.map fun a => (readEntry xsdt a).value m).filter (isMadt m)).getLastD d := by
  induction entries generalizing d with
  | nil => rfl
  | cons a entries ih =>
    rw [findMadt, Reads.value_bind, Reads.value_bind, ih, List.map_cons]
    cases hmadt : isMadt m ((readEntry xsdt a).value m) with
    | true => rw [List.filter_cons_of_pos hmadt, List.getLastD_cons, if_pos (of_decide_eq_true hmadt)]
    | false =>
      rw [List.filter_cons_of_neg (by rw [hmadt]; decide), if_neg (of_decide_eq_false hmadt)]

/-- `xsdt_address` counts from revision 2 on. -/
theorem Rsdp.rootAddr_congr {r r' : Rsdp} (hrevision : r'.revision = r.revision) (hrsdt : r'.rsdtAddress = r.rsdtAddress)
    (hxsdt : 2 ≤ r.revision → r'.xsdtAddress = r.xsdtAddress) :
    r'.useXsdt = r.useXsdt ∧ r'.rootAddr = r.rootAddr := by
  have huse : r'.useXsdt = r.useXsdt := by
    rw [useXsdt, useXsdt, hrevision]
    by_cases hnew : 2 ≤ r.revision
    · rw [hxsdt hnew]
    · have hold : decide (r.revision ≥ 2) = false := decide_eq_false hnew
      rw [hold, Bool.false_and, Bool.false_and]
  refine ⟨huse, ?_⟩
  rw [rootAddr, rootAddr, huse, hrsdt]
  cases hx : r.useXsdt with
  | false => rfl
  | true =>
    rw [useXsdt, Bool.and_eq_true] at hx
    rw [if_pos rfl, if_pos rfl, hxsdt (of_decide_eq_true hx.1)]

/-- A byte outside the RSDP changes neither its checks nor where the root table is. -/
theorem rsdp_kept (h : a ∉ rsdpBytes m s) :
    (rsdpOk s.rsdpAddress (rsdpOf (Function.update m a b) s)).value (Function.update m a b) =
      (rsdpOk s.rsdpAddress (rsdpOf m s)).value m ∧
    (rsdpOf (Function.update m a b) s).useXsdt = (rsdpOf m s).useXsdt ∧
    rootAddr (Function.update m a b) s = rootAddr m s := by
  have hout : ¬distance s.rsdpAddress a < if 2 ≤ (rsdpOf m s).revision then 36 else 20 := h
  have hlow : 20 ≤ distance s.rsdpAddress a := by
    split_ifs at hout
    · omega
    · omega
  have hfield (o k : ℕ) (ho : o + k ≤ 20) : (readBytes (s.rsdpAddress + BitVec.ofNat 64 o) k).value (Function.update m a b) =
      (readBytes (s.rsdpAddress + BitVec.ofNat 64 o) k).value m := by
    apply readBytes_update (by omega)
    intro hin
    have hbounds := inTable_field (by omega) hin
    omega
  refine ⟨rsdpOk_kept hlow, Rsdp.rootAddr_congr ?_ ?_ fun hnew => ?_⟩
  · rw [rsdpOf_eq, rsdpOf_eq]
    dsimp only
    rw [hfield 15 1 (by decide)]
  · rw [rsdpOf_eq, rsdpOf_eq]
    dsimp only
    rw [hfield 16 4 (by decide)]
  · have hbytes : (readBytes (s.rsdpAddress + BitVec.ofNat 64 24) 8).value (Function.update m a b) =
        (readBytes (s.rsdpAddress + BitVec.ofNat 64 24) 8).value m := by
      apply readBytes_update (by decide)
      intro hin
      have hbounds := inTable_field (by decide) hin
      rw [if_pos hnew] at hout
      omega
    rw [rsdpOf_eq, rsdpOf_eq]
    dsimp only
    rw [hbytes]

theorem Laid.root_detected (h : Laid m s madt) (ha : InBody m (rootAddr m s) a) (hb : b ≠ m a) :
    (init fuel s).value (Function.update m a b) = some (.error .badTableChecksum, s) := by
  have hout : a ∉ rsdpBytes m s := fun hin => Set.disjoint_left.mp (h.rsdp _ List.mem_cons_self) hin ha.mem
  obtain ⟨hok, -, hroot⟩ := rsdp_kept (b := b) hout
  have hlength : rootLength (Function.update m a b) s = rootLength m s := by
    rw [rootLength, rootLength, hroot, readHeader_update ha.1]
  apply init_root_rejected h.accepted.address (hok.trans h.accepted.rsdp)
  rw [hroot, hlength]
  have hlt := (rootLength m s).isLt
  exact checksumOk_changed (by omega) ha.2 hb h.accepted.root

theorem readEntry_update {xsdt : Bool} {root e : U64} {size : ℕ} (hsize : size ≤ 2 ^ 32)
    (he : distance root e + entrySize xsdt ≤ size) (ha : ¬InTable root size a) :
    (readEntry xsdt e).value (Function.update m a b) = (readEntry xsdt e).value m := by
  have hbytes : (readBytes e (entrySize xsdt)).value (Function.update m a b) = (readBytes e (entrySize xsdt)).value m := by
    apply readBytes_update (by omega)
    intro hin
    apply ha
    rw [InTable] at hin ⊢
    rw [distance_step root e a]
    omega
  cases xsdt with
  | true =>
    change (readU64 e).value _ = (readU64 e).value _
    rw [readU64, Reads.value_map, Reads.value_map]
    exact congrArg (fun bytes => BitVec.ofNat 64 (littleEndian bytes)) hbytes
  | false =>
    change ((fun address : BitVec 32 => address.setWidth 64) <$> readU32 e).value _ = _
    rw [readEntry, if_neg (by decide), Reads.value_map, Reads.value_map, readU32, Reads.value_map, Reads.value_map]
    exact congrArg (fun bytes => (BitVec.ofNat 32 (littleEndian bytes)).setWidth 64) hbytes

/-- The entries that are looked at are the ones in the table. -/
theorem Laid.listed_eq (h : Laid m s madt) : sdtHeaderSize ≤ (rootLength m s).toNat ∧
    (rootEntries m s).map (fun e => (readEntry (rsdpOf m s).useXsdt e).value m) = listed m s := by
  have hmem : madt ∈ listed m s := List.mem_of_mem_filter (by rw [h.single]; exact List.mem_singleton_self _)
  have hheader : sdtHeaderSize ≤ (rootLength m s).toNat := by
    by_contra hshort
    rw [listed, Nat.sub_eq_zero_of_le (not_le.mp hshort).le, Nat.zero_div] at hmem
    exact absurd hmem List.not_mem_nil
  refine ⟨hheader, ?_⟩
  rw [rootEntries, entryAddresses, entryCount_eq hheader, List.map_map]
  rfl

theorem Laid.madt_detected (h : Laid m s madt) (ha : InBody m madt a) (hb : b ≠ m a) :
    (init fuel s).value (Function.update m a b) = some (.error .badTableChecksum, s) := by
  have hmem : madt ∈ listed m s := List.mem_of_mem_filter (by rw [h.single]; exact List.mem_singleton_self _)
  obtain ⟨hheader, hlisted⟩ := h.listed_eq
  have hrsdp : a ∉ rsdpBytes m s :=
    fun hin => Set.disjoint_left.mp (h.rsdp madt (List.mem_cons_of_mem _ hmem)) hin ha.mem
  have hroot : a ∉ tableBytes m (rootAddr m s) :=
    fun hin => Set.disjoint_left.mp ((List.pairwise_cons.mp h.apart).1 madt hmem) hin ha.mem
  have hrootBytes : ¬InTable (rootAddr m s) (rootLength m s).toNat a := by
    intro hin
    exact hroot (hin.trans_le (le_max_right _ _))
  obtain ⟨hok, hxsdt, haddr⟩ := rsdp_kept (b := b) hrsdp
  have hlt := (rootLength m s).isLt
  have hlength : rootLength (Function.update m a b) s = rootLength m s := by
    have hfar : 8 ≤ distance (rootAddr m s) a := by
      rw [sdtHeaderSize] at hheader
      have hout := not_lt.mp hrootBytes
      omega
    rw [rootLength, rootLength, haddr, readHeader_update hfar]
  have haccepted : Accepted (Function.update m a b) s := by
    refine ⟨h.accepted.address, hok.trans h.accepted.rsdp, ?_⟩
    rw [haddr, hlength, checksumOk_update (by omega) hrootBytes]
    exact h.accepted.root
  have hentries : rootEntries (Function.update m a b) s = rootEntries m s := by
    rw [rootEntries, rootEntries, haddr, hlength, hxsdt]
  have hread : (rootEntries m s).map (fun e => (readEntry (rsdpOf m s).useXsdt e).value (Function.update m a b)) =
      listed m s := by
    rw [← hlisted]
    apply List.map_congr_left
    intro e he
    exact readEntry_update hlt.le (entry_inside hheader he) hrootBytes
  have hkind (t : U64) (ht : t ∈ listed m s) : isMadt (Function.update m a b) t = isMadt m t := by
    have hfar : 8 ≤ distance t a := by
      by_cases he : t = madt
      · rw [he]
        exact ha.1
      · have hsymm : Std.Symm fun t u => Disjoint (tableBytes m t) (tableBytes m u) := ⟨fun _ _ hd => hd.symm⟩
        have hdisjoint := (List.pairwise_cons.mp h.apart).2.forall ht hmem he
        have hout : ¬distance t a < max sdtHeaderSize (tableLength m t).toNat :=
          fun hin => Set.disjoint_left.mp hdisjoint hin ha.mem
        rw [sdtHeaderSize] at hout
        omega
    rw [isMadt, isMadt, readHeader_update hfar]
  have hfound : (findMadt (rsdpOf (Function.update m a b) s).useXsdt (rootEntries (Function.update m a b) s) 0).value
      (Function.update m a b) = madt := by
    rw [value_findMadt, hxsdt, hentries, hread, List.filter_congr hkind, h.single]
    rfl
  rw [init_accepted haccepted, hfound, if_neg h.address]
  have hchecksum : (checksumOk madt (((readHeader madt).value m).length.setWidth 64 : U64).toNat).value
      (Function.update m a b) = false := by
    have hdeclared : (((readHeader madt).value m).length.setWidth 64 : U64).toNat = (tableLength m madt).toNat :=
      tableLength_setWidth m madt
    rw [hdeclared]
    have hsize := (tableLength m madt).isLt
    exact checksumOk_changed (by omega) ha.2 hb h.checksum
  rw [parseMadt, Reads.value_bind, Reads.value_bind, readHeader_update ha.1, hchecksum]
  rfl

end Tables

/-- Any one byte that `init` relies on in a valid RSDP is noticed when it changes just if it does not belong to
`xsdt_address`; any one in the body of the root table or of the MADT is noticed. -/
theorem corruption_detected_iff (m : U64 → UInt8) (s : AcpiState) (a : U64) (b : UInt8) (hb : b ≠ m a) :
    (RsdpValid m s → ReliedOn m s a →
      ((∀ fuel, (init fuel s).value (Function.update m a b) = some (.error .badRsdpChecksum, s)) ↔
        ¬InXsdtAddress s a)) ∧
    ∀ madt, Laid m s madt → InBody m (rootAddr m s) a ∨ InBody m madt a →
      ∀ fuel, (init fuel s).value (Function.update m a b) = some (.error .badTableChecksum, s) := by
  constructor
  · intro hvalid hrelied
    exact rsdp_detected_iff hvalid hrelied hb
  · intro madt hlaid hbody fuel
    cases hbody with
    | inl hroot => exact hlaid.root_detected hroot hb
    | inr hmadt => exact hlaid.madt_detected hmadt hb

/-- An RSDP at 0x1000, an RSDT with one entry at 0x2000, and an empty MADT at 0x3000. -/
def sampleMemory (a : U64) : UInt8 :=
  if 0x3000 ≤ a.toNat then bytesAt 0x3000 ([0x41, 0x50, 0x49, 0x43, 44, 0, 0, 0, 1, 182] ++ List.replicate 34 0) a
  else if 0x2000 ≤ a.toNat then
    bytesAt 0x2000 ([0x52, 0x53, 0x44, 0x54, 40, 0, 0, 0, 1, 106] ++ List.replicate 27 0 ++ [0x30, 0, 0]) a
  else bytesAt 0x1000 sampleRsdp a

theorem sampleMemory_laid : Laid sampleMemory rsdpState 0x3000 := by
  have hrevision : ¬2 ≤ (rsdpOf sampleMemory rsdpState).revision := by decide
  have hroot : rootAddr sampleMemory rsdpState = 0x2000 := by decide
  have hlisted : listed sampleMemory rsdpState = [0x3000] := by decide
  have hrootLength : (tableLength sampleMemory 0x2000).toNat = 40 := by decide
  have hmadtLength : (tableLength sampleMemory 0x3000).toNat = 44 := by decide
  have hrsdp (x : U64) (h : x ∈ rsdpBytes sampleMemory rsdpState) : 0x1000 ≤ x.toNat ∧ x.toNat < 0x1014 := by
    have hin : (x - 0x1000).toNat < 20 := by
      rw [rsdpBytes, if_neg hrevision] at h
      exact h
    bv_omega
  have hrsdt (x : U64) (h : x ∈ tableBytes sampleMemory 0x2000) : 0x2000 ≤ x.toNat ∧ x.toNat < 0x2028 := by
    have hin : (x - 0x2000).toNat < 40 := by
      rw [tableBytes, hrootLength] at h
      exact h
    bv_omega
  have hmadt (x : U64) (h : x ∈ tableBytes sampleMemory 0x3000) : 0x3000 ≤ x.toNat ∧ x.toNat < 0x302C := by
    have hin : (x - 0x3000).toNat < 44 := by
      rw [tableBytes, hmadtLength] at h
      exact h
    bv_omega
  refine ⟨⟨by decide, by decide, by decide⟩, by decide, by decide, by decide, ?_, ?_⟩
  · rw [hroot, hlisted, List.pairwise_pair, Set.disjoint_left]
    intro x hx hx'
    have hlow := hrsdt x hx
    have hhigh := hmadt x hx'
    omega
  · rw [hroot, hlisted]
    intro t ht
    rw [Set.disjoint_left]
    intro x hx hx'
    have hlow := hrsdp x hx
    cases List.mem_cons.mp ht with
    | inl he =>
      rw [he] at hx'
      have hhigh := hrsdt x hx'
      omega
    | inr ht =>
      rw [List.mem_singleton.mp ht] at hx'
      have hhigh := hmadt x hx'
      omega

theorem corruption_detected_sample :
    (∀ fuel, (init fuel rsdpState).value (Function.update sampleMemory 0x1011 0x21) =
      some (.error .badRsdpChecksum, rsdpState)) ∧
    (∀ fuel, (init fuel rsdpState).value (Function.update sampleMemory 0x2025 0x31) =
      some (.error .badTableChecksum, rsdpState)) ∧
    ∀ fuel, (init fuel rsdpState).value (Function.update sampleMemory 0x3024 1) =
      some (.error .badTableChecksum, rsdpState) := by
  have hvalid : RsdpValid sampleMemory rsdpState := ⟨by decide, by decide, by decide, fun h => absurd h (by decide)⟩
  have hrelied : ReliedOn sampleMemory rsdpState 0x1011 := .inr (.inr (.inl (by decide)))
  have hout : ¬InXsdtAddress rsdpState 0x1011 := fun h => absurd h.1 (by decide)
  have hroot : InBody sampleMemory (rootAddr sampleMemory rsdpState) 0x2025 := ⟨by decide, by decide⟩
  have hmadt : InBody sampleMemory 0x3000 0x3024 := ⟨by decide, by decide⟩
  refine ⟨?_, ?_, ?_⟩
  · exact ((corruption_detected_iff sampleMemory rsdpState 0x1011 0x21 (by decide)).1 hvalid hrelied).mpr hout
  · exact (corruption_detected_iff sampleMemory rsdpState 0x2025 0x31 (by decide)).2 0x3000 sampleMemory_laid (.inl hroot)
  · exact (corruption_detected_iff sampleMemory rsdpState 0x3024 1 (by decide)).2 0x3000 sampleMemory_laid (.inr hmadt)

/-- An RSDP of revision 2 for an XSDT at 0x2000, with both checksums. -/
def xsdtRsdp : List UInt8 :=
  [0x52, 0x53, 0x44, 0x20, 0x50, 0x54, 0x52, 0x20, 223, 0, 0, 0, 0, 0, 0, 2, 0, 0, 0, 0,
    36, 0, 0, 0, 0x00, 0x20, 0, 0, 0, 0, 0, 0, 188, 0, 0, 0]

/-- With one byte of `xsdt_address` changed the extended checksum is wrong, and `init` goes on to 0x2100. -/
theorem xsdt_change_missed : ∃ m, RsdpValid m rsdpState ∧ ReliedOn m rsdpState 0x1019 ∧ m 0x1019 ≠ 0x21 ∧
    rootAddr m rsdpState = 0x2000 ∧ rootAddr (Function.update m 0x1019 0x21) rsdpState = 0x2100 ∧
    (checksumOk 0x1000 36).value (Function.update m 0x1019 0x21) = false ∧
    ∀ fuel, (init fuel rsdpState).value (Function.update m 0x1019 0x21) ≠ some (.error .badRsdpChecksum, rsdpState) := by
  have hvalid : RsdpValid (bytesAt 0x1000 xsdtRsdp) rsdpState := ⟨by decide, by decide, by decide, fun _ => by decide⟩
  have hin : InXsdtAddress rsdpState 0x1019 := ⟨by decide, by decide⟩
  have hrelied : ReliedOn (bytesAt 0x1000 xsdtRsdp) rsdpState 0x1019 := .inr (.inr (.inr ⟨by decide, hin⟩))
  have hok : (rsdpOk rsdpState.rsdpAddress (rsdpOf (bytesAt 0x1000 xsdtRsdp) rsdpState)).value
      (bytesAt 0x1000 xsdtRsdp) = true := by decide
  have hkept : (rsdpOk rsdpState.rsdpAddress (rsdpOf (Function.update (bytesAt 0x1000 xsdtRsdp) 0x1019 0x21) rsdpState)).value
      (Function.update (bytesAt 0x1000 xsdtRsdp) 0x1019 0x21) = true := (rsdpOk_kept (by decide)).trans hok
  exact ⟨_, hvalid, hrelied, by decide, by decide, by decide, by decide, fun fuel => init_not_badRsdp (by decide) hkept⟩

end VenturaOS.Acpi
