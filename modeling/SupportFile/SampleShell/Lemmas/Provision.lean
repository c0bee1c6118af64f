import SupportFile.SampleShell.Impl.Provision

/-!
This module contains what the installer leaves on the database server. It searches the whole list of
names for the one it needs, so that a longer name can stand in for it.
-/

namespace Provision

def isSpecial (c : Char) : Bool :=
  c == '\x00' || c == '\t' || c == '\n' || c == '\\'

structure IsSearchable (pattern : List Char) : Prop where
  ne_nil : pattern ≠ []
  plain : ∀ c ∈ pattern, isSpecial c = false
  -- The second characters of the escape sequences.
  start : ∀ c ∈ pattern.take 1, c ≠ '0' ∧ c ≠ 't' ∧ c ≠ 'n'

theorem escapeChar_of_plain {c : Char} (h : isSpecial c = false) : escapeChar c = [c] := by
  simp only [isSpecial, Bool.or_eq_false_iff, beq_eq_false_iff_ne, and_assoc] at h
  unfold escapeChar
  split
  . simp at h
  . simp at h
  . simp at h
  . simp at h
  . rfl

theorem escapeChar_of_special {c : Char} (h : isSpecial c = true)
    : ∃ e ∈ ['0', 't', 'n', '\\'], escapeChar c = ['\\', e] := by
  simp only [isSpecial, Bool.or_eq_true, beq_iff_eq, or_assoc] at h
  rcases h with rfl | rfl | rfl | rfl
  . exact ⟨'0', by decide, rfl⟩
  . exact ⟨'t', by decide, rfl⟩
  . exact ⟨'n', by decide, rfl⟩
  . exact ⟨'\\', by decide, rfl⟩

theorem prefix_escape_iff {pattern : List Char} (h : ∀ c ∈ pattern, isSpecial c = false)
    (name : List Char)
    : pattern <+: escape name ↔ pattern <+: name := by
  induction name generalizing pattern with
  | nil => rfl
  | cons c name ih =>
    cases pattern with
    | nil => simp
    | cons p pattern =>
      rw [List.forall_mem_cons] at h
      unfold escape at ih ⊢
      rw [List.flatMap_cons]
      cases hc : isSpecial c with
      | false =>
        rw [escapeChar_of_plain hc, List.singleton_append, List.cons_prefix_cons,
          List.cons_prefix_cons, ih h.right]
      | true =>
        rcases escapeChar_of_special hc with ⟨e, _, heq⟩
        have hne : p ≠ '\\' := by
          rintro rfl
          exact absurd h.left (by decide)
        have hne' : p ≠ c := by
          rintro rfl
          rw [hc] at h
          simp at h
        rw [heq, List.cons_append, List.cons_prefix_cons, List.cons_prefix_cons]
        simp [hne, hne']

theorem IsSearchable.not_starts {pattern : List Char} (h : IsSearchable pattern) (c : Char)
    (hc : c ∈ ['0', 't', 'n', '\\'] ∨ isSpecial c = true) (s : List Char)
    : ¬pattern <+: c :: s := by
  intro hpre
  rw [List.prefix_cons_iff] at hpre
  rcases hpre with hnil | ⟨pattern', heq, _⟩
  . apply h.ne_nil hnil
  . have hplain := h.plain c (by simp [heq])
    have hstart := h.start c (by simp [heq])
    cases hc with
    | inl hmem =>
      simp only [List.mem_cons, List.not_mem_nil, or_false] at hmem
      rcases hmem with rfl | rfl | rfl | rfl
      . simp at hstart
      . simp at hstart
      . simp at hstart
      . revert hplain
        decide
    | inr hspecial =>
      rw [hplain] at hspecial
      contradiction

theorem infix_escape_iff {pattern : List Char} (h : IsSearchable pattern) (name : List Char)
    : pattern <:+: escape name ↔ pattern <:+: name := by
  induction name with
  | nil => rfl
  | cons c name ih =>
    have hpre := prefix_escape_iff h.plain (c :: name)
    unfold escape at ih hpre ⊢
    rw [List.flatMap_cons] at hpre ⊢
    cases hc : isSpecial c with
    | false =>
      rw [escapeChar_of_plain hc, List.singleton_append] at hpre ⊢
      rw [List.infix_cons_iff, List.infix_cons_iff, ih, hpre]
    | true =>
      rcases escapeChar_of_special hc with ⟨e, he, heq⟩
      rw [heq, List.cons_append, List.singleton_append, List.infix_cons_iff, List.infix_cons_iff,
        List.infix_cons_iff, ih]
      simp [h.not_starts e (Or.inl he), h.not_starts c (Or.inr hc), h.not_starts '\\' (by simp)]

theorem infix_capture_print_iff {pattern column : List Char} (h : IsSearchable pattern)
    (hwarning : ¬pattern <:+: warning) (hcolumn : ¬pattern <:+: column) (names : List (List Char))
    : pattern <:+: capture (print column names) ↔ ∃ name ∈ names, pattern <:+: name := by
  have hnewline : '\n' ∉ pattern := by
    intro hmem
    have hplain := h.plain _ hmem
    revert hplain
    decide
  unfold capture print
  rw [SepList.infix_rdropWhile_iff hnewline, SepList.infix_terminated_iff hnewline h.ne_nil]
  simp [hwarning, hcolumn, infix_escape_iff h]

theorem not_infix_of_not_mem {pattern s : List Char} (c : Char) (hc : c ∈ pattern) (h : c ∉ s)
    : ¬pattern <:+: s := by
  intro hsub
  apply h
  exact hsub.subset hc

theorem chargingSystem_isSearchable : IsSearchable chargingSystem where
  ne_nil := by
    unfold chargingSystem
    simp
  plain := by
    unfold chargingSystem
    simp [isSpecial]
  start := by
    unfold chargingSystem
    simp

theorem keep_isSearchable : IsSearchable keep where
  ne_nil := by
    unfold keep
    simp
  plain := by
    unfold keep
    simp [isSpecial]
  start := by
    unfold keep
    simp

theorem chargingSystem_infix_iff (s : MySql)
    : chargingSystem <:+: showDatabases s ↔ ∃ schema ∈ s.schemas, chargingSystem <:+: schema := by
  apply infix_capture_print_iff chargingSystem_isSearchable
  . apply not_infix_of_not_mem '_'
    . decide
    . unfold warning
      simp
  . apply not_infix_of_not_mem '_'
    . decide
    . decide

theorem keep_infix_iff (s : MySql)
    : keep <:+: selectUser s ↔ ∃ account ∈ s.accounts, keep <:+: account.user := by
  unfold selectUser
  rw [infix_capture_print_iff keep_isSearchable]
  . simp
  . apply not_infix_of_not_mem 'k'
    . decide
    . unfold warning
      simp
  . apply not_infix_of_not_mem 'k'
    . decide
    . decide

section CreateUnless

variable {name : List Char} {output : MySql → List Char} {create : MySql → MySql} {s : MySql}

theorem createUnless_of_found (h : name <:+: output s) : createUnless name output create s = s := by
  unfold createUnless
  rw [if_neg (not_not.mpr h)]

theorem createUnless_of_missing (h : ¬name <:+: output s)
    : createUnless name output create s = create s := by
  unfold createUnless
  rw [if_pos h]

theorem createUnless_keeps {P : MySql → Prop} (hs : P s) (hcreate : P (create s))
    : P (createUnless name output create s) := by
  by_cases h : name <:+: output s
  . rw [createUnless_of_found h]
    exact hs
  . rw [createUnless_of_missing h]
    exact hcreate

theorem createUnless_establishes_iff {P : MySql → Prop} (hcreate : P (create s))
    : P (createUnless name output create s) ↔ (name <:+: output s → P s) := by
  by_cases h : name <:+: output s
  . rw [createUnless_of_found h]
    simp [h]
  . rw [createUnless_of_missing h]
    simp [h, hcreate]

end CreateUnless

theorem databaseSection_accounts (s : MySql) : (databaseSection s).accounts = s.accounts := by
  apply createUnless_keeps (P := fun s' => s'.accounts = s.accounts)
  . rfl
  . rfl

theorem userSection_schemas (s : MySql) : (userSection s).schemas = s.schemas := by
  apply createUnless_keeps (P := fun s' => s'.schemas = s.schemas)
  . rfl
  . rfl

theorem schemas_subset_databaseSection (s : MySql) : s.schemas ⊆ (databaseSection s).schemas := by
  apply createUnless_keeps (P := fun s' => s.schemas ⊆ s'.schemas)
  . apply List.Subset.refl
  . apply List.subset_append_left

theorem accounts_subset_userSection (s : MySql) : s.accounts ⊆ (userSection s).accounts := by
  apply createUnless_keeps (P := fun s' => s.accounts ⊆ s'.accounts)
  . apply List.Subset.refl
  . apply List.subset_append_left

theorem mem_databaseSection_iff (s : MySql)
    : chargingSystem ∈ (databaseSection s).schemas
        ↔
      (chargingSystem <:+: showDatabases s → chargingSystem ∈ s.schemas) := by
  apply createUnless_establishes_iff (P := fun s => chargingSystem ∈ s.schemas)
  simp [createSchema]

theorem mem_userSection_iff (s : MySql)
    : (∃ account ∈ (userSection s).accounts, account.user = keep)
        ↔
      (keep <:+: selectUser s → ∃ account ∈ s.accounts, account.user = keep) := by
  apply createUnless_establishes_iff (P := fun s => ∃ account ∈ s.accounts, account.user = keep)
  simp [createUser, grantAll]

theorem infix_databaseSection (s : MySql)
    : chargingSystem <:+: showDatabases (databaseSection s) := by
  apply (createUnless_establishes_iff (P := fun s => chargingSystem <:+: showDatabases s) ?_).mpr id
  rw [chargingSystem_infix_iff]
  exact ⟨chargingSystem, by simp [createSchema], List.infix_rfl⟩

theorem infix_userSection (s : MySql) : keep <:+: selectUser (userSection s) := by
  apply (createUnless_establishes_iff (P := fun s => keep <:+: selectUser s) ?_).mpr id
  rw [keep_infix_iff]
  exact ⟨⟨keep, "%".toList⟩, by simp [grantAll, createUser], List.infix_rfl⟩

theorem provision_eq_self {s : MySql} (hschema : chargingSystem <:+: showDatabases s)
    (huser : keep <:+: selectUser s)
    : provision s = s := by
  unfold provision databaseSection userSection
  rw [createUnless_of_found hschema, createUnless_of_found huser]

/-- Running the sections again changes nothing, whether or not they did what they are for. -/
theorem provision_provision (s : MySql) : provision (provision s) = provision s := by
  apply provision_eq_self
  . have hschema := infix_databaseSection s
    rw [chargingSystem_infix_iff] at hschema ⊢
    unfold provision
    rw [userSection_schemas]
    exact hschema
  . apply infix_userSection

structure IsProvisioned (s s' : MySql) : Prop where
  schema : chargingSystem ∈ s'.schemas
  user : ∃ account ∈ s'.accounts, account.user = keep
  schemas : s.schemas ⊆ s'.schemas
  accounts : s.accounts ⊆ s'.accounts
  again : provision s' = s'

theorem provision_isProvisioned_iff (s : MySql)
    : IsProvisioned s (provision s)
        ↔
      ((∃ schema ∈ s.schemas, chargingSystem <:+: schema) → chargingSystem ∈ s.schemas)
        ∧
      ((∃ account ∈ s.accounts, keep <:+: account.user)
        → ∃ account ∈ s.accounts, account.user = keep) := by
  rw [← chargingSystem_infix_iff, ← keep_infix_iff]
  have hschema : chargingSystem ∈ (provision s).schemas
      ↔ (chargingSystem <:+: showDatabases s → chargingSystem ∈ s.schemas) := by
    unfold provision
    rw [userSection_schemas, mem_databaseSection_iff]
  have huser : (∃ account ∈ (provision s).accounts, account.user = keep)
      ↔ (keep <:+: selectUser s → ∃ account ∈ s.accounts, account.user = keep) := by
    unfold provision
    rw [mem_userSection_iff, keep_infix_iff, keep_infix_iff, databaseSection_accounts]
  constructor
  . intro h
    exact ⟨hschema.mp h.schema, huser.mp h.user⟩
  . rintro ⟨hexact, hexact'⟩
    constructor
    . apply hschema.mpr hexact
    . apply huser.mpr hexact'
    . unfold provision
      rw [userSection_schemas]
      apply schemas_subset_databaseSection
    . unfold provision
      rw [← databaseSection_accounts s]
      apply accounts_subset_userSection
    . apply provision_provision

-- A server on which the user `keep` is there and a schema was renamed.
def renamedSchema : MySql :=
  { schemas := ["charging_system_old".toList]
    accounts := [{ user := keep, host := "%".toList }] }

theorem not_provision_isProvisioned_renamedSchema
    : ¬IsProvisioned renamedSchema (provision renamedSchema) := by
  intro h
  have heq : provision renamedSchema = renamedSchema := by
    apply provision_eq_self
    . rw [chargingSystem_infix_iff]
      exact ⟨_, List.mem_singleton_self _, by decide⟩
    . rw [keep_infix_iff]
      exact ⟨_, List.mem_singleton_self _, List.infix_rfl⟩
  have hschema := h.schema
  rw [heq] at hschema
  revert hschema
  decide

end Provision
