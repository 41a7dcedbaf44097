import Mathlib
import ReplicaCensus.Proofs.Storage.History
/-!
# The version that accounts for a write

A write is answered with a version that its cell holds then. Unless it was obsolete, that is the
version written or an earlier one with its signature. A write that a version of its cell is after
already leaves the cell as it is, and the answer is the last version there, whether that one is
after the write or only beside the one that is.
-/

namespace ReplicaCensus

/-! ## 1. Obsolete versions -/

namespace Version

variable {history : List Version} {c : Version}

/-- A version that some version of a history comes after. -/
def IsObsolete (history : List Version) (v : Version) : Prop := ∃ w ∈ history, v.isBefore w = true

/-- A version that stands for another: one with its signature, or one that comes after it. -/
def AccountsFor (u v : Version) : Prop := u.signature = v.signature ∨ v.isBefore u = true

theorem not_isObsolete_iff : ¬IsObsolete history c ↔ isMaximal history c = true := by
  rw [isMaximal_iff]
  simp [IsObsolete]

/-- The versions that are kept make obsolete what the whole history does. -/
theorem isObsolete_maximal : IsObsolete (maximal history) c ↔ IsObsolete history c := by
  constructor
  · rintro ⟨w, hw, hcw⟩
    exact ⟨w, (mem_of_mem_maximal hw).1, hcw⟩
  · rintro ⟨w, hw, hcw⟩
    obtain ⟨m, hm, hcm, hmax⟩ := exists_maximal_after hw hcw
    obtain ⟨u, hu, hsame⟩ := exists_mem_maximal hm hmax
    exact ⟨u, hu, (isBefore_congr_right hsame).trans hcm⟩

/-- An obsolete write leaves the maximal versions as they are. -/
theorem maximal_append_of_isObsolete (h : IsObsolete history c) :
    maximal (history ++ [c]) = maximal history := by
  obtain ⟨u, hu, hcu⟩ := h
  have hsame : isMaximal (history ++ [c]) = isMaximal history := by
    funext v
    rw [Bool.eq_iff_iff, isMaximal_iff, isMaximal_iff]
    simp only [List.mem_append, List.mem_singleton]
    constructor
    · exact fun h w hw => h w (.inl hw)
    · rintro h w (hw | rfl)
      · exact h w hw
      -- what is before the write is before the version after it
      · by_contra hvw
        rw [Bool.not_eq_false] at hvw
        have hvu := h u hu
        rw [isBefore_trans hvw hcu] at hvu
        cases hvu
  have hc : isMaximal history c = false := by
    rw [← Bool.not_eq_true, ← not_isObsolete_iff, not_not]
    exact ⟨u, hu, hcu⟩
  rw [maximal, List.filter_append, hsame, List.filter_singleton, hc, cond_false, List.append_nil,
    maximal]

/-- A write that is not obsolete is kept, or a version with its signature is. -/
theorem exists_signature_of_not_isObsolete (h : ¬IsObsolete history c) :
    ∃ u ∈ maximal (history ++ [c]), u.signature = c.signature := by
  apply exists_mem_maximal (List.mem_append_right _ (List.mem_singleton_self c))
  rw [isMaximal_iff]
  intro w hw
  rcases List.mem_append.1 hw with hw | hw
  · exact isMaximal_iff.1 (not_isObsolete_iff.1 h) w hw
  · rw [List.mem_singleton.1 hw]
    exact not_isBefore_self c

/-- No version that is kept has the signature of an obsolete one. -/
theorem signature_ne_of_isObsolete (h : IsObsolete history c) {v : Version}
    (hv : v ∈ maximal history) : v.signature ≠ c.signature := by
  intro hsame
  obtain ⟨u, hu, hcu⟩ := h
  have hvu := isMaximal_iff.1 (mem_of_mem_maximal hv).2 u hu
  rw [isBefore_congr_left hsame, hcu] at hvu
  cases hvu

end Version

/-! ## 2. The answer to a write -/

namespace Storage

theorem accounting_mem {kept : List Version} (h : kept ≠ []) (candidate : Version) :
    accounting kept candidate ∈ kept := by
  unfold accounting
  split
  · next v hv => exact List.mem_of_find?_eq_some hv
  · rw [List.getLastD_eq_getLast?, List.getLast?_eq_some_getLast h]
    exact List.getLast_mem h

theorem signature_accounting {kept : List Version} {candidate : Version}
    (h : ∃ u ∈ kept, u.signature = candidate.signature) :
    (accounting kept candidate).signature = candidate.signature := by
  obtain ⟨u, hu, hsame⟩ := h
  unfold accounting
  split
  · next v hv => simpa using List.find?_some hv
  · next hnone =>
    rw [List.find?_eq_none] at hnone
    exact absurd (decide_eq_true hsame) (hnone u hu)

/-- With no version of its signature there, a write is answered with the last one. -/
theorem getLast?_eq_accounting {kept : List Version} {candidate : Version} (hne : kept ≠ [])
    (h : ∀ u ∈ kept, u.signature ≠ candidate.signature) :
    kept.getLast? = some (accounting kept candidate) := by
  have hnone : kept.find? (fun v => v.signature = candidate.signature) = none := by
    rw [List.find?_eq_none]
    intro u hu
    simpa using h u hu
  rw [accounting, hnone, List.getLastD_eq_getLast?, List.getLast?_eq_some_getLast hne,
    Option.getD_some]

section

variable {past : List Version} {c : Version}

/-- What a write to a cell with this past is answered with. -/
def answer (past : List Version) (c : Version) : Version :=
  accounting (Version.maximal (past ++ [c])) c

theorem answer_mem (past : List Version) (c : Version) :
    answer past c ∈ Version.maximal (past ++ [c]) :=
  accounting_mem (Version.maximal_ne_nil
    (List.append_ne_nil_of_right_ne_nil _ (List.cons_ne_nil _ _))) _

theorem answer_of_not_isObsolete (h : ¬Version.IsObsolete (Version.maximal past) c) :
    (answer past c).signature = c.signature := by
  rw [Version.isObsolete_maximal] at h
  exact signature_accounting (Version.exists_signature_of_not_isObsolete h)

/-- An obsolete write changes nothing, and the answer is the last version there. -/
theorem answer_of_isObsolete (h : Version.IsObsolete (Version.maximal past) c) :
    Version.maximal (past ++ [c]) = Version.maximal past ∧
      (Version.maximal past).getLast? = some (answer past c) ∧
      (answer past c).signature ≠ c.signature := by
  obtain ⟨u, hu, -⟩ := id h
  have hne := List.ne_nil_of_mem hu
  rw [Version.isObsolete_maximal] at h
  rw [answer, Version.maximal_append_of_isObsolete h]
  exact ⟨rfl, getLast?_eq_accounting hne fun v hv => Version.signature_ne_of_isObsolete h hv,
    Version.signature_ne_of_isObsolete h (accounting_mem hne c)⟩

theorem accountsFor_answer_iff :
    (answer past c).AccountsFor c ↔
      ∀ last, (Version.maximal past).getLast? = some last →
        Version.IsObsolete (Version.maximal past) c → c.isBefore last = true := by
  constructor
  · intro haccounts last hlast hobsolete
    obtain ⟨-, hanswer, hne⟩ := answer_of_isObsolete hobsolete
    rw [hlast, Option.some.injEq] at hanswer
    rw [hanswer]
    exact haccounts.resolve_left hne
  · intro hall
    by_cases hobsolete : Version.IsObsolete (Version.maximal past) c
    · exact .inr (hall _ (answer_of_isObsolete hobsolete).2.1 hobsolete)
    · exact .inl (answer_of_not_isObsolete hobsolete)

/-- With one version there, it is the one that makes a write obsolete. -/
theorem accountsFor_answer_of_length_le (h : (Version.maximal past).length ≤ 1) :
    (answer past c).AccountsFor c := by
  refine accountsFor_answer_iff.2 fun last hlast ⟨u, hu, hcu⟩ => ?_
  generalize Version.maximal past = kept at h hlast hu
  match kept, h with
  | [v], _ =>
    rw [List.getLast?_singleton, Option.some.injEq] at hlast
    rw [← hlast, ← List.mem_singleton.1 hu]
    exact hcu

end

variable {names : List String} {writes : List Write} {w : Write}

/-- A write to a store that is known is taken, and answered out of what its cell holds then. -/
theorem put_of_mem (h : w.store ∈ names) :
    ((ofNames names).applyAll writes).put w.store w.key w.version =
      .ok (answer (history writes w.store w.key) w.version,
        (ofNames names).applyAll (writes ++ [w])) := by
  obtain ⟨keys, hkeys⟩ : ∃ keys, ((ofNames names).applyAll writes).stores.get? w.store =
      some keys := by
    rw [← hasStore_iff, hasStore_applyAll, hasStore_ofNames]
    exact h
  have hversions := versions_applyAll h w.key writes
  rw [versions, hkeys] at hversions
  rw [applyAll_append_singleton, apply_of_known hkeys, put, hkeys, answer,
    ← Version.merge_maximal, ← Except.ok.inj hversions]

/-- Nothing else is taken. -/
theorem mem_of_put {found : Version × Storage}
    (h : ((ofNames names).applyAll writes).put w.store w.key w.version = .ok found) :
    w.store ∈ names := by
  by_contra hno
  rw [← hasStore_ofNames, Bool.not_eq_true, ← hasStore_applyAll _ writes] at hno
  rw [put_of_unknown hno] at h
  cases h

/-- A write to a storage is answered with one of the versions that its cell has then. -/
theorem stored_mem_of_put {stored : Version} {storage : Storage}
    (h : ((ofNames names).applyAll writes).put w.store w.key w.version = .ok (stored, storage)) :
    w.store ∈ names ∧ storage = (ofNames names).applyAll (writes ++ [w]) ∧
      stored ∈ Version.maximal (history (writes ++ [w]) w.store w.key) := by
  have hknown := mem_of_put h
  rw [put_of_mem hknown] at h
  cases h
  rw [history_append_singleton, if_pos ⟨rfl, rfl⟩]
  exact ⟨hknown, rfl, answer_mem _ _⟩

/-- A write to a known store is answered with a version that its cell holds then, and unless the
write was obsolete, with one of its signature. An obsolete write leaves the cell as it is and is
answered with the last version there, which never has its signature; so that version accounts for
the write exactly if it comes after it, which is sure only where it is the only one. -/
theorem put_accounts_iff (names : List String) (writes : List Write) (w : Write)
    (h : w.store ∈ names) :
    ∃ before after stored,
      ((ofNames names).applyAll writes).versions w.store w.key = .ok before ∧
      ((ofNames names).applyAll writes).put w.store w.key w.version =
        .ok (stored, (ofNames names).applyAll (writes ++ [w])) ∧
      ((ofNames names).applyAll (writes ++ [w])).versions w.store w.key = .ok after ∧
      stored ∈ after ∧
      (¬Version.IsObsolete before w.version → stored.signature = w.version.signature) ∧
      (Version.IsObsolete before w.version →
        after = before ∧ before.getLast? = some stored ∧
          stored.signature ≠ w.version.signature) ∧
      (stored.AccountsFor w.version ↔
        ∀ last, before.getLast? = some last → Version.IsObsolete before w.version →
          w.version.isBefore last = true) ∧
      (before.length ≤ 1 → stored.AccountsFor w.version) := by
  have hafter := versions_applyAll h w.key (writes ++ [w])
  rw [history_append_singleton, if_pos ⟨rfl, rfl⟩] at hafter
  exact ⟨_, _, _, versions_applyAll h w.key writes, put_of_mem h, hafter, answer_mem _ _,
    answer_of_not_isObsolete, answer_of_isObsolete, accountsFor_answer_iff,
    accountsFor_answer_of_length_le⟩

/-! Two versions beside each other, a write that comes after the second, and one that is before the
first. -/

def besideEachOther : List Write :=
  [⟨"users", [0x6b], ⟨"a", OrderedMap.ofList [(0, 2)], 0⟩⟩,
    ⟨"users", [0x6b], ⟨"b", OrderedMap.ofList [(1, 1)], 0⟩⟩]

def newWrite : Write := ⟨"users", [0x6b], ⟨"c", OrderedMap.ofList [(1, 2)], 0⟩⟩

def obsoleteWrite : Write := ⟨"users", [0x6b], ⟨"c", OrderedMap.ofList [(0, 1)], 0⟩⟩

theorem versions_besideEachOther :
    ((ofNames ["users"]).applyAll besideEachOther).versions "users" [0x6b] =
      .ok (besideEachOther.map Write.version) := by
  rw [versions_applyAll (by decide)]
  cbv

/-- A write that comes after one of two versions is answered with its own signature. -/
theorem put_accounts_iff_besideEachOther :
    newWrite.store ∈ ["users"] ∧ ∃ stored storage,
      ((ofNames ["users"]).applyAll besideEachOther).put newWrite.store newWrite.key
        newWrite.version = .ok (stored, storage) ∧
      stored.signature = newWrite.version.signature := by
  obtain ⟨before, after, stored, hbefore, hput, -, -, hlive, -⟩ :=
    put_accounts_iff ["users"] besideEachOther newWrite (by decide)
  have heq : before = besideEachOther.map Write.version :=
    Except.ok.inj (hbefore.symm.trans versions_besideEachOther)
  refine ⟨by decide, stored, _, hput, hlive ?_⟩
  rw [heq]
  rintro ⟨u, hu, hbefore⟩
  revert u
  decide

/-- An obsolete write is answered with the second of two versions, which neither has its signature
nor comes after it: the first one does. -/
theorem put_obsoleteWrite :
    ∃ first second storage,
      ((ofNames ["users"]).applyAll besideEachOther).versions obsoleteWrite.store
        obsoleteWrite.key = .ok [first, second] ∧
      Clock.compare obsoleteWrite.version.stamp.clock first.stamp.clock = .before ∧
      ((ofNames ["users"]).applyAll besideEachOther).put obsoleteWrite.store obsoleteWrite.key
        obsoleteWrite.version = .ok (second, storage) ∧
      second.signature ≠ obsoleteWrite.version.signature ∧
      Clock.compare obsoleteWrite.version.stamp.clock second.stamp.clock ≠ .before := by
  have hanswer : answer (history besideEachOther obsoleteWrite.store obsoleteWrite.key)
      obsoleteWrite.version = ⟨"b", OrderedMap.ofList [(1, 1)], 0⟩ := by
    cbv
  have hput : ((ofNames ["users"]).applyAll besideEachOther).put obsoleteWrite.store
      obsoleteWrite.key obsoleteWrite.version = _ := put_of_mem (by decide)
  rw [hanswer] at hput
  refine ⟨_, _, _, versions_besideEachOther, ?_, hput, ?_, ?_⟩
  · decide
  · decide
  · decide

end Storage

end ReplicaCensus
