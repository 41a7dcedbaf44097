import Mathlib
import ReplicaCensus.Client.Basic
import ReplicaCensus.Node.Service
import ReplicaCensus.Proofs.Text.Lines
import ReplicaCensus.Proofs.Text.Percent
/-!
# What a node answers to a reader

The three paths that a reader asks for lead to the topology, to the stores and to the stamps of one
key in one store, whatever characters the name of the store has.
-/

namespace ReplicaCensus

/-! ## 1. The path of a key's versions -/

/-- The path with its percent signs resolved. -/
def plainPath (store : String) (key : Bytes) : List Char :=
  '/' :: ("admin".toList ++ '/' :: ("stores".toList ++ '/' :: (store.toList ++ '/' ::
    ("keys".toList ++ '/' :: (Hex.encodeChars key ++ '/' :: "versions".toList)))))

theorem percent_not_mem_encodeChars (key : Bytes) : '%' ∉ Hex.encodeChars key := by
  intro h
  have hrange := Hex.mem_encodeChars h
  exact absurd hrange (by decide)

theorem slash_not_mem_encodeChars (key : Bytes) : '/' ∉ Hex.encodeChars key := by
  intro h
  have hrange := Hex.mem_encodeChars h
  exact absurd hrange (by decide)

theorem toList_versionsPath (store : String) (key : Bytes) :
    (Client.versionsPath store key).toList =
      "/admin/stores/".toList ++ (Percent.quoteChars store.toList ++
        ("/keys/".toList ++ (Hex.encodeChars key ++ "/versions".toList))) := by
  unfold Client.versionsPath Percent.quote Hex.encode
  simp only [String.toList_append, String.toList_ofList, List.append_assoc]

/-- Resolving the percent signs gives the name of the store itself back. -/
theorem unquote?_versionsPath (store : String) (key : Bytes) :
    Percent.unquote? (Client.versionsPath store key) =
      some (String.ofList (plainPath store key)) := by
  have hpath := toList_versionsPath store key
  have hshape : plainPath store key = "/admin/stores/".toList ++ (store.toList ++
      ("/keys/".toList ++ (Hex.encodeChars key ++ ("/versions".toList ++ [])))) := by
    rw [List.append_nil]
    rfl
  -- only the name of the store is quoted, and nothing around it has a percent sign
  have hbytes : Percent.unquoteBytes (Client.versionsPath store key).toList =
      Utf8.encode (plainPath store key) := by
    rw [hpath, hshape, Percent.unquoteBytes_append (by decide), Percent.unquoteBytes_quoteChars,
      Percent.unquoteBytes_append (by decide),
      Percent.unquoteBytes_append (percent_not_mem_encodeChars key),
      ← List.append_nil "/versions".toList, Percent.unquoteBytes_append (by decide)]
    simp only [Utf8.encode_append]
    rfl
  exact Percent.unquote?_eq_some hbytes

/-- The path of a key's versions, the key in any spelling. -/
def versionsChars (store : String) (hex : List Char) : List Char :=
  '/' :: ("admin".toList ++ '/' :: ("stores".toList ++ '/' :: (store.toList ++ '/' ::
    ("keys".toList ++ '/' :: (hex ++ '/' :: "versions".toList)))))

theorem names?_versionsChars {store : String} (hs : '/' ∉ store.toList) {hex : List Char}
    (hhex : '/' ∉ hex) :
    Route.names? (versionsChars store hex) =
      some ["admin", "stores", store, "keys", String.ofList hex, "versions"] := by
  have hsplit : Text.splitAtChar '/' (versionsChars store hex) =
      [[], "admin".toList, "stores".toList, store.toList, "keys".toList, hex,
        "versions".toList] := by
    rw [versionsChars, ← List.nil_append ('/' :: _), Text.splitAtChar_piece List.not_mem_nil,
      Text.splitAtChar_piece (by decide), Text.splitAtChar_piece (by decide),
      Text.splitAtChar_piece hs, Text.splitAtChar_piece (by decide), Text.splitAtChar_piece hhex,
      Text.splitAtChar_eq_singleton (by decide)]
  rw [Route.names?, hsplit]
  simp only [List.map_cons, List.map_nil, String.ofList_toList]

theorem dropLastFeed_versionsChars (store : String) (hex : List Char) :
    Route.dropLastFeed (versionsChars store hex) = versionsChars store hex := by
  have hlast : (versionsChars store hex).getLast? = some 's' := by
    simp [versionsChars, List.getLast?_cons, List.getLast?_append]
  rw [Route.dropLastFeed, hlast, if_neg (by decide)]

theorem ofPath?_versionsChars {store : String} (hs : '/' ∉ store.toList) (hne : store ≠ "")
    {hex : List Char} (hhex : '/' ∉ hex) (hnil : hex ≠ []) :
    Route.ofPath? (String.ofList (versionsChars store hex)) =
      some (.versions store (String.ofList hex)) := by
  have hempty : String.ofList hex ≠ "" := by
    intro he
    have hlist := congrArg String.toList he
    rw [String.toList_ofList] at hlist
    exact hnil hlist
  rw [Route.ofPath?, String.toList_ofList, names?_versionsChars hs hhex]
  show Route.fixed? ((Route.names? (Route.dropLastFeed (versionsChars store hex))).getD []) = _
  rw [dropLastFeed_versionsChars, names?_versionsChars hs hhex]
  show (if store = "" ∨ String.ofList hex = "" then none else _) = _
  rw [if_neg (not_or.2 ⟨hne, hempty⟩)]

theorem ofPath?_plainPath {store : String} (hs : '/' ∉ store.toList) (hne : store ≠ "")
    {key : Bytes} (hkey : key ≠ []) :
    Route.ofPath? (String.ofList (plainPath store key)) =
      some (.versions store (Hex.encode key)) :=
  ofPath?_versionsChars hs hne (slash_not_mem_encodeChars key) (Hex.encodeChars_ne_nil hkey)

/-! ## 2. The answers -/

namespace Service

theorem handle_cluster (s : Service) (now : Int) :
    (s.handle ⟨"GET", "/admin/cluster", [], now⟩).1 = ⟨200, some s.resolver.topology.toJson⟩ := by
  have hroute : Route.ofPath? "/admin/cluster" = some .cluster := by decide +kernel
  rw [handle, hroute]
  rfl

theorem handle_stores (s : Service) (now : Int) :
    (s.handle ⟨"GET", "/admin/stores", [], now⟩).1 =
      .success [("stores", .arr (s.schemas.map Schema.toJson))] := by
  have hroute : Route.ofPath? "/admin/stores" = some .stores := by decide +kernel
  rw [handle, hroute]
  rfl

/-- Asked for a key, a node answers with the stamps it stores itself. -/
theorem handle_versions (s : Service) {store : String} (hs : '/' ∉ store.toList)
    (hne : store ≠ "") {key : Bytes} (hkey : key ≠ []) {stamps : List Stamp}
    (hstamps : s.storage.stamps store key = .ok stamps) (now : Int) :
    (s.handle ⟨"GET", String.ofList (plainPath store key), [], now⟩).1 =
      .success [("versions", .arr (stamps.map Stamp.toJson))] := by
  rw [handle, ofPath?_plainPath hs hne hkey]
  show s.versions store (Hex.encode key) = _
  -- the key is decoded back from its hexadecimal text
  rw [versions, Hex.encode, String.toList_ofList, Hex.decodeSpaced?_encodeChars]
  dsimp only
  rw [hstamps]

end Service

end ReplicaCensus
