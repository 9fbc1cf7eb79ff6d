import Mathlib.Data.List.Induction
import Tsql.Engine

/-!
Requests that one engine answers.

What an engine keeps between requests are the registries of the buffers that are open, and a request
never reads one that an earlier request has left: a request on a buffer rebuilds its registry first
(`TempStore.refresh_fst`). So the answers do not depend on the requests before
(`answers_after_history`), save for the question whether a buffer is open. It is open when it has been
completed in and not been closed since (`mem_buffers_after`).
-/

namespace Tsql

namespace TempStore

/-- The buffers that have a registry. -/
def buffers (s : TempStore) : List Nat :=
  s.registries.map Prod.fst

theorem length_buffers (s : TempStore) : s.buffers.length = s.size :=
  List.length_map Prod.fst

theorem isSome_get? (s : TempStore) (b : Nat) : (s.get? b).isSome = true ↔ b ∈ s.buffers := by
  rw [get?, List.lookup_isSome_iff, buffers, List.mem_map]
  exact exists_congr fun r => and_congr_right fun _ => by rw [beq_iff_eq, eq_comm]

theorem buffers_erase (s : TempStore) (b : Nat) :
    (s.erase b).buffers = s.buffers.filter (· ≠ b) := by
  rw [buffers, buffers, List.filter_map]
  rfl

theorem buffers_set (s : TempStore) (b : Nat) (r : TempRegistry) :
    (s.set b r).buffers = b :: s.buffers.filter (· ≠ b) := by
  rw [← buffers_erase]
  rfl

/-- What a buffer held before does not matter to its new registry, nor do the other buffers. -/
theorem refresh_fst (s : TempStore) (b : Nat) (resolver : Resolver) (ss : List Statement) :
    (s.refresh b resolver ss).1 = .ofStatements resolver ss :=
  rfl

theorem buffers_refresh (s : TempStore) (b : Nat) (resolver : Resolver) (ss : List Statement) :
    (s.refresh b resolver ss).2.buffers = b :: s.buffers.filter (· ≠ b) :=
  buffers_set s b _

end TempStore

namespace Engine

/-- A request on a buffer or on a text. -/
inductive Request
  | detect (buffer : Nat) (source : String) (p : Position)
  | close (buffer : Nat)
  | diagnostics (source : String)

/-- The engine after a request. -/
def serve (e : Engine) : Request → Engine
  | .detect buffer source p => (e.detect buffer source p).2
  | .close buffer => (e.close buffer).2
  | .diagnostics _ => e

def after (e : Engine) (history : List Request) : Engine :=
  history.foldl serve e

/-- A buffer is open if it has been completed in, and not been closed since. -/
def IsOpen (history : List Request) (b : Nat) : Prop :=
  ∃ front back source p, history = front ++ .detect b source p :: back ∧ .close b ∉ back

theorem isOpen_concat {history : List Request} {r : Request} {b : Nat} :
    IsOpen (history ++ [r]) b ↔
      (∃ source p, r = .detect b source p) ∨ IsOpen history b ∧ r ≠ .close b := by
  constructor
  · rintro ⟨front, back, source, p, heq, hclose⟩
    rcases back.eq_nil_or_concat with rfl | ⟨back, r', rfl⟩
    · exact .inl ⟨source, p, List.singleton_inj.1 (List.append_inj_right' heq rfl)⟩
    · rw [List.concat_eq_append] at heq hclose
      rw [← List.cons_append, ← List.append_assoc] at heq
      obtain ⟨rfl, hr⟩ := List.append_inj' heq rfl
      obtain rfl := List.singleton_inj.1 hr
      rw [List.mem_append, List.mem_singleton, not_or] at hclose
      exact .inr ⟨⟨front, back, source, p, rfl, hclose.1⟩, Ne.symm hclose.2⟩
  · rintro (⟨source, p, rfl⟩ | ⟨⟨front, back, source, p, rfl, hclose⟩, hr⟩)
    · exact ⟨history, [], source, p, rfl, List.not_mem_nil⟩
    · refine ⟨front, back ++ [r], source, p, by rw [List.append_assoc, List.cons_append], ?_⟩
      rw [List.mem_append, List.mem_singleton, not_or]
      exact ⟨hclose, hr.symm⟩

theorem after_concat (e : Engine) (history : List Request) (r : Request) :
    e.after (history ++ [r]) = (e.after history).serve r := by
  rw [after, List.foldl_append]
  rfl

/-- A request changes nothing but the registries. -/
theorem exists_serve_eq (e : Engine) (r : Request) :
    ∃ temps, e.serve r = { e with temps := temps } := by
  cases r with
  | detect b source p => exact ⟨_, rfl⟩
  | close b => exact ⟨_, rfl⟩
  | diagnostics source => exact ⟨e.temps, rfl⟩

theorem exists_after_eq (e : Engine) (history : List Request) :
    ∃ temps, e.after history = { e with temps := temps } := by
  induction history using List.reverseRecOn with
  | nil => exact ⟨e.temps, rfl⟩
  | append_singleton history r ih =>
      obtain ⟨temps, hafter⟩ := ih
      obtain ⟨temps', hserve⟩ := exists_serve_eq (e.after history) r
      exact ⟨temps', by rw [after_concat, hserve, hafter]⟩

/-! ### Open buffers -/

theorem mem_buffers_serve (e : Engine) (r : Request) (b : Nat) :
    b ∈ (e.serve r).temps.buffers ↔
      (∃ source p, r = .detect b source p) ∨ b ∈ e.temps.buffers ∧ r ≠ .close b := by
  cases r with
  | detect buffer source p =>
      rw [serve, detect, TempStore.buffers_refresh]
      by_cases h : b = buffer <;> simp [h, eq_comm]
  | close buffer =>
      rw [serve, close, TempStore.buffers_erase]
      by_cases h : b = buffer <;> simp [h, eq_comm]
  | diagnostics source => simp [serve]

theorem nodup_buffers_serve {e : Engine} (h : e.temps.buffers.Nodup) (r : Request) :
    (e.serve r).temps.buffers.Nodup := by
  cases r with
  | detect buffer source p =>
      rw [serve, detect, TempStore.buffers_refresh, List.nodup_cons]
      exact ⟨by simp, h.filter _⟩
  | close buffer =>
      rw [serve, close, TempStore.buffers_erase]
      exact h.filter _
  | diagnostics source => exact h

section Fresh

variable {e : Engine}

/-- The buffers with a registry are the open ones. -/
theorem mem_buffers_after (h : e.temps.buffers = []) (history : List Request) (b : Nat) :
    b ∈ (e.after history).temps.buffers ↔ IsOpen history b := by
  induction history using List.reverseRecOn with
  | nil => simp [after, h, IsOpen]
  | append_singleton history r ih =>
      rw [after_concat, mem_buffers_serve, isOpen_concat, ih]

theorem nodup_buffers_after (h : e.temps.buffers = []) (history : List Request) :
    (e.after history).temps.buffers.Nodup := by
  induction history using List.reverseRecOn with
  | nil =>
      rw [after, List.foldl_nil, h]
      exact List.nodup_nil
  | append_singleton history r ih =>
      rw [after_concat]
      exact nodup_buffers_serve ih r

end Fresh

/-! ### Answers -/

theorem read_detector (e : Engine) (source : String) : e.detector.read source = e.parse source :=
  rfl

theorem resolver_detector (e : Engine) : e.detector.resolver = e.resolver :=
  rfl

/-- An engine completes as a detector does that has never seen a buffer. -/
theorem fst_detect (e : Engine) (buffer : Nat) (source : String) (p : Position) :
    (e.detect buffer source p).1 = e.detector.detect source p := by
  have hrefreshed : (e.detect buffer source p).1 = e.detector.detectIn source (e.parse source)
      (e.temps.refresh buffer e.resolver (e.parse source).statements).1 p := by
    rw [detect]
  rw [hrefreshed, TempStore.refresh_fst, Detector.detect, read_detector, resolver_detector]

/-- Whatever an engine has been asked before: it completes in a buffer as a new detector does, and
its diagnostics are those of a new engine. A buffer can be closed if it is open, and the open ones
are counted once each. -/
theorem answers_after_history (settings : Settings) (source : Option MetadataSource)
    (functions : FunctionRegistry) (history : List Request) :
    let fresh : Engine := { settings, source, functions }
    let e := fresh.after history
    (∀ buffer text p,
        (e.detect buffer text p).1 = (Detector.mk fresh.resolver functions).detect text p) ∧
      (∀ buffer, (e.close buffer).1 = true ↔ IsOpen history buffer) ∧
      (∃ buffers : List Nat, buffers.Nodup ∧ (∀ b, b ∈ buffers ↔ IsOpen history b) ∧
        e.openCount = buffers.length) ∧
      ∀ text, e.diagnostics text = fresh.diagnostics text := by
  intro fresh e
  obtain ⟨temps, hafter⟩ : ∃ temps, e = { fresh with temps := temps } :=
    exists_after_eq fresh history
  have hmem := mem_buffers_after (e := fresh) rfl history
  refine ⟨fun buffer text p => ?_, fun buffer => ?_, ?_, fun text => ?_⟩
  · rw [fst_detect, hafter]
    rfl
  · rw [close, TempStore.isSome_get?]
    exact hmem buffer
  · exact ⟨e.temps.buffers, nodup_buffers_after rfl history, hmem, e.temps.length_buffers.symm⟩
  · rw [hafter]
    rfl

end Engine

end Tsql
