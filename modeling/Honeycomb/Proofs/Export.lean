import Honeycomb.Module.Source
import Honeycomb.Page
import Honeycomb.Proofs.Json.Inline
import Honeycomb.Proofs.Module.Order
import Honeycomb.Proofs.Module.Payload

/-!
# A page starts from the modules that were loaded

A list of modules that was read from a text, checked and sorted is written into a page, and the page
reads, checks and sorts it again.

* `Source.loaded_of_parse` — what is known of a list that was loaded.
* `Source.export_lossless` — every stage gives the list back, so the page starts from it.
-/

set_option autoImplicit false

namespace Honeycomb.Source

/-- A list of modules as it comes out of a source: in order, no two modules of one name, and every
module such as a payload can list. -/
structure Loaded (ms : List Module) : Prop where
  sorted : Module.sort ms = ms
  nodup : (ms.map (·.name)).Nodup
  named : ∀ m ∈ ms, m.name ≠ ""
  unreserved : ∀ m ∈ ms, Fields.reservedKey ∉ m.settings.keys
  order : ∀ m ∈ ms, m.settings.Canonical

theorem loaded_of_parse {complaint : Text → Text} {text source : Text} {ms : List Module}
    (h : parse complaint text source = .ok ms) : Loaded ms := by
  unfold parse at h
  split at h
  · cases h
  rename_i raw hraw
  split at h
  · cases h
  rename_i listed hlisted
  obtain rfl := Except.ok.inj h
  have hperm : (Module.sort listed).Perm listed := List.mergeSort_perm _ _
  refine ⟨Module.sort_sort listed, ?_, ?_, ?_, ?_⟩
  · exact (hperm.map _).nodup_iff.mpr (Payload.nodup_names_of_modules hlisted)
  · intro m hm
    obtain ⟨-, -, j, -, hdenotes⟩ :=
      Payload.exists_entry_of_modules hlisted (hperm.mem_iff.mp hm)
    exact hdenotes.name_ne
  · intro m hm
    have hwell := Json.wellFormed_of_parse? hraw
    exact (Payload.settled_of_modules hwell hlisted (hperm.mem_iff.mp hm)).unreserved
  · intro m hm
    have hordered := Json.ordered_of_parse? hraw
    exact Payload.canonical_of_modules hordered hlisted (hperm.mem_iff.mp hm)

/-- A list that was loaded, written as a payload and listed again is itself. -/
theorem Loaded.initialModules {ms : List Module} (h : Loaded ms) :
    Page.initialModules (some (Module.listToJson ms)) = .ok ms := by
  have hlisted : Payload.modules (Module.listToJson ms) = .ok ms :=
    Payload.modules_listToJson h.nodup fun m hm => ⟨h.named m hm, h.unreserved m hm⟩
  show (Payload.modules (Module.listToJson ms)).map Module.sort = _
  rw [hlisted, Except.map, h.sorted]

/-- **What is written into a page is the list that was loaded**, if its numbers are finite and none
is the zero that loses its sign: the text inside the script stands for a value, the modules that
this value lists are the loaded ones, in their order and with all that belongs to them, and a page
that comes with it starts from them. -/
theorem export_lossless {complaint : Text → Text} {text source : Text} {ms : List Module}
    (h : parse complaint text source = .ok ms)
    (hnumbers : ∀ m ∈ ms, ∀ (key : Text) (x : Float), (key, .number x) ∈ m.settings →
      x.isFinite = true ∧ x ≠ -0) :
    ∃ raw, Json.parse? (Module.listToJson ms).inline = some raw ∧
      (Payload.modules raw).map Module.sort = .ok ms ∧
      ∀ page : Page.Source, page.hasContainer = true → page.data = some raw →
        Page.load page = Page.startWith page ms := by
  have hloaded := loaded_of_parse h
  have hfaithful : Json.Faithful (Module.listToJson ms) :=
    Module.faithful_listToJson fun m hm => ⟨hloaded.order m hm, hnumbers m hm⟩
  have hread := Json.parse?_guardClosers (Json.parse?_render hfaithful)
  have hinitial := hloaded.initialModules
  refine ⟨Module.listToJson ms, hread, hinitial, ?_⟩
  intro page hcontainer hdata
  unfold Page.load
  rw [hcontainer, hdata, hinitial]
  rfl

/-- A payload that is not in order, with closing tags and an index among its keys and texts. -/
def savedPayload : Json :=
  .array [.object [(Text.ofString "name", .text "b</script>"),
      (Text.ofString "settings", .object [(Text.ofString "7", .number 0.1),
        (Text.ofString "</", .text "<!--")])],
    .object [(Text.ofString "name", .text "a"), (Text.ofString "is_server", .bool true),
      (Text.ofString "enabled", .bool true)]]

/-- The modules that it lists, in order. -/
def savedModules : List Module :=
  [⟨"a", true, true, []⟩,
    ⟨"b</script>", false, false,
      [(Text.ofString "7", .number 0.1), (Text.ofString "</", .text "<!--")]⟩]

theorem faithful_savedPayload : Json.Faithful savedPayload := by
  have hsettings : Json.Faithful (.object [(Text.ofString "7", .number 0.1),
      (Text.ofString "</", .text "<!--")]) := by
    refine .object (by decide +kernel) ?_
    rw [List.forall_mem_cons, List.forall_mem_singleton]
    exact ⟨.number (by decide +kernel) (by decide +kernel), .text _⟩
  refine .array ?_
  rw [List.forall_mem_cons, List.forall_mem_singleton]
  constructor
  · refine .object (by decide +kernel) ?_
    rw [List.forall_mem_cons, List.forall_mem_singleton]
    exact ⟨.text _, hsettings⟩
  · refine .object (by decide +kernel) ?_
    rw [List.forall_mem_cons, List.forall_mem_cons, List.forall_mem_singleton]
    exact ⟨.text _, .bool true, .bool true⟩

theorem parse_savedPayload (complaint : Text → Text) :
    parse complaint savedPayload.render unnamed = .ok savedModules := by
  have hlisted : Payload.modules savedPayload = .ok savedModules.reverse := by decide +kernel
  have hsorted : Module.sort savedModules.reverse = savedModules :=
    Module.sort_of_perm (List.reverse_perm _) (by decide +kernel) (by decide +kernel)
  unfold parse
  rw [Json.parse?_render faithful_savedPayload]
  dsimp only
  rw [hlisted]
  dsimp only
  rw [hsorted]

theorem export_lossless_saved :
    parse id savedPayload.render unnamed = .ok savedModules ∧
      ∃ raw, Json.parse? (Module.listToJson savedModules).inline = some raw ∧
        (Payload.modules raw).map Module.sort = .ok savedModules ∧
        ∀ page : Page.Source, page.hasContainer = true → page.data = some raw →
          Page.load page = Page.startWith page savedModules := by
  refine ⟨parse_savedPayload id, export_lossless (parse_savedPayload id) ?_⟩
  intro m hm key x hx
  simp only [savedModules, List.mem_cons, List.not_mem_nil, or_false] at hm
  rcases hm with rfl | rfl
  · cases hx
  · simp only [List.mem_cons, Prod.mk.injEq, Setting.number.injEq, reduceCtorEq, and_false,
      List.not_mem_nil, or_false] at hx
    obtain ⟨-, rfl⟩ := hx
    exact ⟨by decide +kernel, by decide +kernel⟩

end Honeycomb.Source
