import SupportFile.ApiTest.Lemmas.RequestBody

/-!
This module contains what the filter makes of an upload that breaks off. The constructor of the wrapper
swallows the exception, and what it has read by then goes on as the body of the request.
-/

namespace RequestWrapper

open BufferedReader

/-- The lines that are complete when the stream breaks off, without their terminators. -/
def salvaged (bytes : List UInt8) (handed : Nat) : List Char :=
  stripTerminators (completeLines ((Utf8.decode false bytes).take handed))

theorem new_broken (bytes : List UInt8) (handed : Nat)
    : new (.broken bytes handed) = { body := some (salvaged bytes handed) } := by
  rw [new_eq]
  rfl

theorem encode_salvaged_iff {bytes full : List UInt8} (hfull : bytes <+: full) (handed : Nat)
    : Utf8.encode (salvaged bytes handed) = full ↔ full = [] := by
  constructor
  . intro h
    -- What goes on has no terminators, so neither had the bytes that were delivered.
    have hnone : ∀ c ∈ (Utf8.decode false bytes).take handed, isTerminator c = false := by
      intro c hc
      rw [← Bool.not_eq_true]
      intro hterm
      have hascii : c.toNat < 0x80 := by
        simp only [isTerminator, Bool.or_eq_true, beq_iff_eq] at hterm
        rcases hterm with rfl | rfl
        all_goals decide
      have hlt : UInt8.ofNat c.toNat < 0x80 := by
        rw [UInt8.lt_iff_toNat_lt, UInt8.toNat_ofNat']
        change c.toNat % 2 ^ 8 < 128
        omega
      have hmem := hfull.subset (Utf8.mem_of_mem_decode (List.mem_of_mem_take hc) hascii)
      rw [← h] at hmem
      have hchar := Utf8.mem_of_mem_encode hmem hlt
      rw [UInt8.toNat_ofNat', Nat.mod_eq_of_lt (by omega), Char.ofNat_toNat] at hchar
      have hfalse := isTerminator_eq_false_of_mem_strip hchar
      rw [hterm] at hfalse
      contradiction
    rw [← h]
    unfold salvaged
    rw [completeLines_eq_nil hnone]
    rfl
  . intro h
    rw [h, List.prefix_nil] at hfull
    rw [h, hfull]
    unfold salvaged
    rw [show Utf8.decode false [] = [] from rfl, List.take_nil]
    rfl

end RequestWrapper

namespace GateFilter

variable (env : Env) (pretty : List Char → Option (List Char)) (bytes : List UInt8) (handed : Nat)
  (response : HttpServletResponse) (chain : RequestWrapper → List Call × Exit)

def HandsOnFull (full : List UInt8) (res : Result) : Prop :=
  ∀ w, res.handed = some w → ∀ calls, ∀ o ∈ w.run calls, o.delivered ++ o.stream.drain = full

/-- The chain is not invoked, and the caller sees the failure instead. -/
structure RefusesPartial (res : Result) : Prop where
  refused : res.handed = none
  reported : res.exit ≠ .returned

theorem doFilter_broken_of_none (h : pretty (RequestWrapper.salvaged bytes handed) = none)
    : let res := doFilter env pretty (.broken bytes handed) response chain
      res.handed = none ∧ res.exit = .unchecked := by
  unfold doFilter
  rw [RequestWrapper.new_broken]
  simp [RequestWrapper.getBody, h]

theorem doFilter_broken_of_some {content : List Char}
    (h : pretty (RequestWrapper.salvaged bytes handed) = some content)
    : (doFilter env pretty (.broken bytes handed) response chain).handed
        =
      some { body := some (RequestWrapper.salvaged bytes handed) } := by
  unfold doFilter
  rw [RequestWrapper.new_broken]
  simp [RequestWrapper.getBody, h]

theorem handsOnFull_iff {full : List UInt8} (hfull : bytes <+: full)
    : HandsOnFull full (doFilter env pretty (.broken bytes handed) response chain)
        ↔
      pretty (RequestWrapper.salvaged bytes handed) = none ∨ full = [] := by
  rw [← RequestWrapper.encode_salvaged_iff hfull handed]
  cases hpretty : pretty (RequestWrapper.salvaged bytes handed) with
  | none =>
    have hnone := doFilter_broken_of_none env pretty bytes handed response chain hpretty
    simp [HandsOnFull, hnone.left]
  | some content =>
    have hsome := doFilter_broken_of_some env pretty bytes handed response chain hpretty
    simp only [HandsOnFull, hsome, Option.some.injEq, reduceCtorEq, false_or]
    constructor
    . intro h
      have hdelivers := h _ rfl [.getInputStream] { stream := { buf := Utf8.encode _ } }
        (List.mem_singleton_self _)
      rw [← hdelivers, ByteArrayInputStream.drain_eq]
      rfl
    . rintro h w rfl calls o ho
      rw [← h]
      apply (RequestWrapper.run_serves _ rfl calls o ho).delivers

theorem doFilter_refusesPartial_iff
    : (RefusesPartial (doFilter env pretty (.broken bytes handed) response chain)
          ↔ pretty (RequestWrapper.salvaged bytes handed) = none)
        ∧
      ∀ rest,
        HandsOnFull (bytes ++ rest) (doFilter env pretty (.broken bytes handed) response chain)
          ↔ pretty (RequestWrapper.salvaged bytes handed) = none ∨ bytes ++ rest = [] := by
  constructor
  . constructor
    . intro h
      cases hpretty : pretty (RequestWrapper.salvaged bytes handed) with
      | none => rfl
      | some content =>
        have hsome := doFilter_broken_of_some env pretty bytes handed response chain hpretty
        rw [h.refused] at hsome
        contradiction
    . intro h
      rcases doFilter_broken_of_none env pretty bytes handed response chain h with ⟨hnone, hexit⟩
      refine ⟨hnone, ?_⟩
      rw [hexit]
      decide
  . intro rest
    exact handsOnFull_iff env pretty bytes handed response chain (List.prefix_append bytes rest)

def brokenUpload : BodyStream :=
  .broken [0x61, 0x0a] 2

theorem not_refusesPartial_brokenUpload
    : let env : Env := { fails := fun _ => false, charset := fun _ => none, lineSeparator := [] }
      let res := doFilter env some brokenUpload {} (fun _ => ([], .returned))
      ¬RefusesPartial res ∧ ¬HandsOnFull [0x61, 0x0a, 0x62] res := by
  intro env res
  constructor
  . intro h
    have hreported := h.reported
    revert hreported
    decide
  . intro h
    have hfull := (handsOnFull_iff env some _ 2 {} (fun _ => ([], .returned))
      (List.prefix_append [0x61, 0x0a] [0x62])).mp h
    simp at hfull

end GateFilter
