import AgentGateway.Conversation.Profile

/-!
# JSON-RPC responses

What `parse_rpc_json` accepts.  Besides the response objects of the design, the
derived structures of the source also decode from arrays that give their
fields by position.
-/

namespace AgentGateway

open Json (Value)
open Utf8 (Bytes)

/-! ## The grammar of responses -/

/-- A tree of the profile and the value it denotes. -/
def Admits (x y : Value) : Prop := x.Every ProfileNode ∧ Denotes x y

theorem strict_eq_some_iff {x y : Value} : strict x = some y ↔ Admits x y := by
  constructor
  · exact denotes_of_strict
  · rintro ⟨hx, hy⟩
    obtain ⟨z, hz⟩ := exists_strict hx
    rw [hz, denotes_unique (denotes_of_strict hz).2 hy]

/-- The code and the message of an error. -/
structure ErrorHead (n : ℕ) (message : String) : Prop where
  negative : 1 ≤ n
  safe : n ≤ maxSafeInteger
  short : message.utf8ByteSize ≤ 256

def errorFields (n : ℕ) (message : String) : List (String × Value) :=
  [("code", .num (.negInt n)), ("message", .str message)]

/-- The error object that is handed on; a `null` as data is dropped. -/
def errorValue (n : ℕ) (message : String) (data : Value) : Value :=
  .object (if data = .null then errorFields n message
    else errorFields n message ++ [("data", data)])

/-- The members of an error, in any order. -/
inductive ErrorText : List (String × Value) → Value → Prop
  | plain {fs : List (String × Value)} {n : ℕ} {message : String} :
      ErrorHead n message → fs.Perm (errorFields n message) →
        ErrorText fs (errorValue n message .null)
  | data {fs : List (String × Value)} {n : ℕ} {message : String}
      {x y : Value} : ErrorHead n message →
        fs.Perm (errorFields n message ++ [("data", x)]) → Admits x y →
          ErrorText fs (errorValue n message y)

def responseFields (jsonrpc id k : String) (x : Value) :
    List (String × Value) :=
  [("jsonrpc", .str jsonrpc), ("id", .str id), (k, x)]

/-- The response objects of the design and the values they are handed on as. -/
inductive RpcResponse : Value → Value → Prop
  | result {fs : List (String × Value)} {jsonrpc id : String} {x y : Value} :
      fs.Perm (responseFields jsonrpc id "result" x) → Admits x y →
        RpcResponse (.obj fs) (.object (responseFields jsonrpc id "result" y))
  | error {fs es : List (String × Value)} {jsonrpc id : String} {y : Value} :
      fs.Perm (responseFields jsonrpc id "error" (.obj es)) → ErrorText es y →
        RpcResponse (.obj fs) (.object (responseFields jsonrpc id "error" y))

/-- Arrays in the place of the response or of its error. -/
inductive Positional : Value → Value → Prop
  | envelope {jsonrpc id : String} {x y : Value} : Admits x y →
      Positional (.arr [.str jsonrpc, .str id, x])
        (.object (responseFields jsonrpc id "result" y))
  | error {fs : List (String × Value)} {jsonrpc id message : String} {n : ℕ}
      {x y : Value} : ErrorHead n message → Admits x y →
        fs.Perm (responseFields jsonrpc id "error"
          (.arr [.num (.negInt n), .str message, x])) →
        Positional (.obj fs) (.object
          (responseFields jsonrpc id "error" (errorValue n message y)))

/-! ## Decoded structures -/

theorem mem_iff_lookup {fs : List (String × Value)}
    (h : (fs.map Prod.fst).Nodup) {k : String} {x : Value} :
    (k, x) ∈ fs ↔ fs.lookup k = some x := by
  constructor
  · intro hmem
    cases hlookup : fs.lookup k with
    | none =>
        rw [List.lookup_eq_none_iff] at hlookup
        simpa using hlookup (k, x) hmem
    | some y =>
        obtain ⟨l₁, l₂, rfl, _⟩ := List.lookup_eq_some_iff.mp hlookup
        rw [eq_of_mem_of_nodup h hmem (y := y) (by simp)]
  · intro hlookup
    obtain ⟨l₁, l₂, rfl, _⟩ := List.lookup_eq_some_iff.mp hlookup
    simp

theorem lookup_perm {fs gs : List (String × Value)} (hperm : fs.Perm gs)
    (hgs : (gs.map Prod.fst).Nodup) (k : String) :
    fs.lookup k = gs.lookup k := by
  have hfs : (fs.map Prod.fst).Nodup := (hperm.map _).nodup_iff.mpr hgs
  refine Option.ext fun x => ?_
  rw [← mem_iff_lookup hfs, ← mem_iff_lookup hgs]
  exact hperm.mem_iff

/-- A field list without repeats is known by its lookups. -/
theorem perm_of_lookup {fs gs : List (String × Value)} {names : List String}
    (hfs : (fs.map Prod.fst).Nodup) (hnames : ∀ f ∈ fs, f.1 ∈ names)
    (hgs : (gs.map Prod.fst).Nodup)
    (hgnames : ∀ g ∈ gs, g.1 ∈ names)
    (h : ∀ k ∈ names, fs.lookup k = gs.lookup k) : fs.Perm gs := by
  rw [List.perm_ext_iff_of_nodup hfs.of_map hgs.of_map]
  rintro ⟨k, x⟩
  rw [mem_iff_lookup hfs, mem_iff_lookup hgs]
  by_cases hk : k ∈ names
  · rw [h k hk]
  · have hnone : ∀ {ks : List (String × Value)},
        (∀ f ∈ ks, f.1 ∈ names) → ks.lookup k = none := by
      intro ks hks
      rw [List.lookup_eq_none_iff]
      intro f hf
      have hne : f.1 ≠ k := by
        rintro rfl
        exact hk (hks f hf)
      simpa using hne.symm
    rw [hnone hnames, hnone hgnames]

theorem set_object (gs : List (String × Value)) (k : String) (x : Value) :
    (Value.object gs).set k x = .object (gs ++ [(k, x)]) := by
  rw [Value.object, Value.object, List.foldl_append]
  rfl

/-! ## Errors -/

theorem admits_null {x y : Value} (h : Admits x y) :
    x = .null ↔ y = .null := by
  obtain ⟨_, hxy⟩ := h
  constructor
  · rintro rfl
    cases hxy
    rfl
  · rintro rfl
    cases hxy
    rfl

theorem Admits.null : Admits .null .null := ⟨.null trivial, .null⟩

/-- The codes that an error may have. -/
theorem asI64?_negative {w : Value} {z : ℤ} :
    asI64? w = some z ∧ -9007199254740991 ≤ z ∧ z < 0 ↔
      ∃ n : ℕ, w = .num (.negInt n) ∧ 1 ≤ n ∧ n ≤ maxSafeInteger ∧
        z = -(n : ℤ) := by
  have hmax : maxSafeInteger = 9007199254740991 := rfl
  constructor
  · rintro ⟨hw, hlow, hneg⟩
    unfold asI64? at hw
    split at hw
    · split_ifs at hw
      cases hw
      omega
    · next n =>
      cases hw
      exact ⟨n, rfl, by omega, by omega, rfl⟩
    · cases hw
  · rintro ⟨n, rfl, hpos, hle, rfl⟩
    exact ⟨rfl, by omega, by omega⟩

/-- The error of a response as it is handed on. -/
def RpcError.value (e : RpcError) : Value :=
  errorValue e.code.natAbs e.message (e.data.getD .null)

def RpcError.Admissible (e : RpcError) : Prop :=
  -9007199254740991 ≤ e.code ∧ e.code < 0 ∧ e.message.utf8ByteSize ≤ 256

theorem optionalField_eq_some {fs : List (String × Value)} {k : String}
    {data : Option Value} :
    optionalField fs k = some data ↔
      (fs.lookup k = none ∧ data = none) ∨
      (fs.lookup k = some .null ∧ data = none) ∨
      ∃ x y, fs.lookup k = some x ∧ x ≠ .null ∧ Admits x y ∧
        data = some y := by
  unfold optionalField
  split
  next hnone => simp [hnone, eq_comm]
  next hnull => simp [hnull, eq_comm]
  next x hne hx =>
    have hxnull : x ≠ .null := by
      rintro rfl
      exact hne rfl
    simp only [hx, Option.map_eq_some_iff, strict_eq_some_iff, reduceCtorEq,
      false_and, Option.some.injEq, hxnull, false_or]
    constructor
    · rintro ⟨y, hy, rfl⟩
      exact ⟨x, y, rfl, hxnull, hy, rfl⟩
    · rintro ⟨x', y, rfl, _, hy, rfl⟩
      exact ⟨y, hy, rfl⟩

/-- The members of an error, found by their names. -/
structure ErrorFields (fs : List (String × Value)) (n : ℕ) (message : String)
    (y : Value) : Prop where
  head : ErrorHead n message
  code : fs.lookup "code" = some (.num (.negInt n))
  message_eq : fs.lookup "message" = some (.str message)
  data : (fs.lookup "data" = none ∧ y = .null) ∨
    ∃ x, fs.lookup "data" = some x ∧ Admits x y

theorem errorFields_iff {fs : List (String × Value)} {v : Value} :
    (∃ e : RpcError, (fs.lookup "code").bind asI64? = some e.code ∧
        (fs.lookup "message").bind Value.asStr? = some e.message ∧
        optionalField fs "data" = some e.data ∧ e.Admissible ∧
        v = e.value) ↔
      ∃ n message y, ErrorFields fs n message y ∧
        v = errorValue n message y := by
  constructor
  · rintro ⟨e, hcode, hmessage, hdata, ⟨hlow, hneg, hshort⟩, rfl⟩
    obtain ⟨w, hw, hcode⟩ := Option.bind_eq_some_iff.mp hcode
    obtain ⟨u, hu, hmessage⟩ := Option.bind_eq_some_iff.mp hmessage
    obtain ⟨n, rfl, hpos, hle, hn⟩ := asI64?_negative.mp ⟨hcode, hlow, hneg⟩
    have hnat : e.code.natAbs = n := by omega
    refine ⟨n, e.message, e.data.getD .null, ⟨⟨hpos, hle, hshort⟩, hw, ?_, ?_⟩,
      by rw [RpcError.value, hnat]⟩
    · rw [hu, Value.asStr?_eq_some.mp hmessage]
    · rcases optionalField_eq_some.mp hdata with ⟨hnone, hd⟩ | ⟨hnull, hd⟩ |
        ⟨x, y, hx, _, hy, hd⟩
      · exact .inl ⟨hnone, by rw [hd]; rfl⟩
      · exact .inr ⟨.null, hnull, by rw [hd]; exact .null⟩
      · exact .inr ⟨x, hx, by rw [hd]; exact hy⟩
  · rintro ⟨n, message, y, ⟨⟨hpos, hle, hshort⟩, hcode, hmessage, hdata⟩, rfl⟩
    obtain ⟨hread, hlow, hneg⟩ :=
      asI64?_negative.mpr ⟨n, rfl, hpos, hle, rfl⟩
    have hfield : ∃ data, optionalField fs "data" = some data ∧
        data.getD .null = y := by
      rcases hdata with ⟨hnone, rfl⟩ | ⟨x, hx, hy⟩
      · exact ⟨none, optionalField_eq_some.mpr (.inl ⟨hnone, rfl⟩), rfl⟩
      · by_cases hnull : x = .null
        · subst hnull
          refine ⟨none, optionalField_eq_some.mpr (.inr (.inl ⟨hx, rfl⟩)), ?_⟩
          exact ((admits_null hy).mp rfl).symm
        · exact ⟨some y, optionalField_eq_some.mpr
            (.inr (.inr ⟨x, y, hx, hnull, hy, rfl⟩)), rfl⟩
    obtain ⟨data, hoptional, rfl⟩ := hfield
    refine ⟨⟨-n, message, data⟩, ?_, ?_, hoptional, ⟨hlow, hneg, hshort⟩, ?_⟩
    · rw [hcode]
      exact hread
    · rw [hmessage]
      rfl
    · rw [RpcError.value, Int.natAbs_neg, Int.natAbs_natCast]

theorem nodup_errorFields (n : ℕ) (message : String) :
    ((errorFields n message).map Prod.fst).Nodup := by
  simp [errorFields]

theorem nodup_errorFields_data (n : ℕ) (message : String) (x : Value) :
    ((errorFields n message ++ [("data", x)]).map Prod.fst).Nodup := by
  simp [errorFields]

/-- Fields in another order have the same names and the same values. -/
theorem fields_of_perm {fs es : List (String × Value)} {names : List String}
    (hperm : fs.Perm es) (hnodup : (es.map Prod.fst).Nodup)
    (hnames : ∀ f ∈ es, f.1 ∈ names) :
    (fs.map Prod.fst).Nodup ∧ (∀ f ∈ fs, f.1 ∈ names) ∧
      ∀ k, fs.lookup k = es.lookup k := by
  constructor
  · exact (hperm.map _).nodup_iff.mpr hnodup
  constructor
  · exact fun f hf => hnames f (hperm.mem_iff.mp hf)
  · exact lookup_perm hperm hnodup

/-- For the fields of an object the grammar says the same. -/
theorem errorText_iff {fs : List (String × Value)} {v : Value} :
    ErrorText fs v ↔ (fs.map Prod.fst).Nodup ∧
      (∀ f ∈ fs, f.1 ∈ ["code", "message", "data"]) ∧
        ∃ n message y, ErrorFields fs n message y ∧
          v = errorValue n message y := by
  constructor
  · intro h
    cases h with
    | @plain n message hhead hperm =>
      have hall : ∀ f ∈ errorFields n message,
          f.1 ∈ ["code", "message", "data"] := by
        simp [errorFields]
      obtain ⟨hnodup, hnames, hlookup⟩ :=
        fields_of_perm hperm (nodup_errorFields n message) hall
      exact ⟨hnodup, hnames, n, message, .null,
        ⟨hhead, hlookup _, hlookup _, .inl ⟨hlookup _, rfl⟩⟩, rfl⟩
    | @data n message x y hhead hperm hxy =>
      have hall : ∀ f ∈ errorFields n message ++ [("data", x)],
          f.1 ∈ ["code", "message", "data"] := by
        simp [errorFields]
      obtain ⟨hnodup, hnames, hlookup⟩ :=
        fields_of_perm hperm (nodup_errorFields_data n message x) hall
      exact ⟨hnodup, hnames, n, message, y,
        ⟨hhead, hlookup _, hlookup _, .inr ⟨x, hlookup _, hxy⟩⟩, rfl⟩
  · rintro ⟨hnodup, hnames, n, message, y, ⟨hhead, hcode, hmessage, hdata⟩,
      rfl⟩
    rcases hdata with ⟨hnone, rfl⟩ | ⟨x, hx, hxy⟩
    · refine .plain hhead (perm_of_lookup hnodup hnames
        (nodup_errorFields n message) (by simp [errorFields]) ?_)
      intro k hk
      simp only [List.mem_cons, List.not_mem_nil, or_false] at hk
      rcases hk with rfl | rfl | rfl
      · rw [hcode]
        rfl
      · rw [hmessage]
        rfl
      · rw [hnone]
        rfl
    · refine .data hhead (perm_of_lookup hnodup hnames
        (nodup_errorFields_data n message x) (by simp [errorFields]) ?_) hxy
      intro k hk
      simp only [List.mem_cons, List.not_mem_nil, or_false] at hk
      rcases hk with rfl | rfl | rfl
      · rw [hcode]
        rfl
      · rw [hmessage]
        rfl
      · rw [hx]
        rfl

/-- What the decoder takes for an error. -/
inductive ErrorMember : Value → Value → Prop
  | object {es : List (String × Value)} {v : Value} : ErrorText es v →
      ErrorMember (.obj es) v
  | array {n : ℕ} {message : String} {x y : Value} : ErrorHead n message →
      Admits x y → ErrorMember (.arr [.num (.negInt n), .str message, x])
        (errorValue n message y)

theorem rpcError_eq_some {w : Value} {e : RpcError} :
    rpcError w = some e ↔ ∃ fs,
      structFields ["code", "message", "data"] 3 w = some fs ∧
        (fs.lookup "code").bind asI64? = some e.code ∧
        (fs.lookup "message").bind Value.asStr? = some e.message ∧
        optionalField fs "data" = some e.data := by
  unfold rpcError
  simp only [Option.bind_eq_bind, Option.bind_eq_some_iff, Option.pure_def,
    Option.some.injEq]
  constructor
  · rintro ⟨fs, hfs, code, hcode, message, hmessage, data, hdata, rfl⟩
    exact ⟨fs, hfs, hcode, hmessage, hdata⟩
  · rintro ⟨fs, hfs, hcode, hmessage, hdata⟩
    exact ⟨fs, hfs, e.code, hcode, e.message, hmessage, e.data, hdata, rfl⟩

/-- Three values in the place of an error's fields. -/
theorem errorFields_zip {a b x v : Value} :
    (∃ n message y,
        ErrorFields (["code", "message", "data"].zip [a, b, x]) n message y ∧
          v = errorValue n message y) ↔
      ErrorMember (.arr [a, b, x]) v := by
  constructor
  · rintro ⟨n, message, y, ⟨hhead, hcode, hmessage, hdata⟩, rfl⟩
    have ha : a = .num (.negInt n) := Option.some.inj hcode
    have hb : b = .str message := Option.some.inj hmessage
    rcases hdata with ⟨hnone, _⟩ | ⟨x', hx, hxy⟩
    · cases hnone
    · have hx' : x = x' := Option.some.inj hx
      rw [ha, hb, hx']
      exact .array hhead hxy
  · intro h
    cases h with
    | @array n message _ y hhead hxy =>
      exact ⟨n, message, y, ⟨hhead, rfl, rfl, .inr ⟨x, rfl, hxy⟩⟩, rfl⟩

theorem errorMember_iff {w v : Value} :
    (∃ e, rpcError w = some e ∧ e.Admissible ∧ v = e.value) ↔
      ErrorMember w v := by
  have hread : (∃ e, rpcError w = some e ∧ e.Admissible ∧ v = e.value) ↔
      ∃ fs, structFields ["code", "message", "data"] 3 w = some fs ∧
        ∃ n message y, ErrorFields fs n message y ∧
          v = errorValue n message y := by
    simp only [← errorFields_iff, rpcError_eq_some]
    constructor
    · rintro ⟨e, ⟨fs, hfs, hcode, hmessage, hdata⟩, he⟩
      exact ⟨fs, hfs, e, hcode, hmessage, hdata, he⟩
    · rintro ⟨fs, hfs, e, hcode, hmessage, hdata, he⟩
      exact ⟨e, ⟨fs, hfs, hcode, hmessage, hdata⟩, he⟩
  rw [hread]
  constructor
  · rintro ⟨fs, hfs, hfields⟩
    revert hfs
    fun_cases structFields ["code", "message", "data"] 3 w with
    | case1 gs hgs =>
        intro hfs
        cases hfs
        exact .object (errorText_iff.mpr ⟨hgs.1, hgs.2, hfields⟩)
    | case3 xs hxs =>
        intro hfs
        cases hfs
        have hlength : xs.length = 3 := Nat.le_antisymm hxs.2 hxs.1
        obtain ⟨a, b, x, rfl⟩ := List.length_eq_three.mp hlength
        exact errorFields_zip.mp hfields
    | _ =>
        intro hfs
        cases hfs
  · intro h
    cases h with
    | @object es v h =>
        obtain ⟨hnodup, hnames, hfields⟩ := errorText_iff.mp h
        exact ⟨es, if_pos ⟨hnodup, hnames⟩, hfields⟩
    | @array n message x y hhead hxy =>
        exact ⟨_, rfl, errorFields_zip.mpr (.array hhead hxy)⟩

/-! ## Envelopes -/

theorem data_ne_null {w : Value} {e : RpcError} (h : rpcError w = some e) :
    e.data ≠ some .null := by
  obtain ⟨fs, _, _, _, hdata⟩ := rpcError_eq_some.mp h
  intro hnull
  rcases optionalField_eq_some.mp hdata with ⟨_, hd⟩ | ⟨_, hd⟩ |
    ⟨x, y, _, hx, hxy, hd⟩
  · simp [hd] at hnull
  · simp [hd] at hnull
  · rw [hd, Option.some.injEq] at hnull
    exact hx ((admits_null hxy).mpr hnull)

/-- The error object as it is assembled, without data and with it. -/
theorem value_of_none {e : RpcError} (hdata : e.data = none) :
    e.value = .object (errorFields e.code.natAbs e.message) := by
  unfold RpcError.value errorValue
  rw [hdata, Option.getD_none, if_pos rfl]

theorem value_of_some {e : RpcError} {data : Value}
    (hdata : e.data = some data) (hne : data ≠ .null) :
    e.value = (Value.object (errorFields e.code.natAbs e.message)).set
      "data" data := by
  unfold RpcError.value errorValue
  rw [hdata, Option.getD_some, if_neg hne, set_object]

theorem envelopeValue_result {e : Envelope} {y : Value}
    (hresult : e.result = some y) (herror : e.error = none) :
    e.value = some (.object (responseFields e.jsonrpc e.id "result" y)) := by
  unfold Envelope.value
  rw [hresult, herror]
  exact congrArg some (set_object _ _ _)

theorem envelopeValue_error {e : Envelope} {err : RpcError}
    (hresult : e.result = none) (herror : e.error = some err)
    (hdata : err.data ≠ some .null) (hok : err.Admissible) :
    e.value =
      some (.object (responseFields e.jsonrpc e.id "error" err.value)) := by
  unfold Envelope.value
  rw [hresult, herror]
  refine (if_pos hok).trans (congrArg some ((set_object _ _ _).trans ?_))
  cases hsome : err.data with
  | none =>
      rw [value_of_none hsome]
      rfl
  | some data =>
      have hne : data ≠ .null := by
        rintro rfl
        exact hdata hsome
      rw [value_of_some hsome hne]
      rfl

theorem envelopeValue_eq_some {e : Envelope} {v : Value}
    (hdata : ∀ err, e.error = some err → err.data ≠ some .null) :
    e.value = some v ↔
      (∃ y, e.result = some y ∧ e.error = none ∧
        v = .object (responseFields e.jsonrpc e.id "result" y)) ∨
      ∃ err, e.result = none ∧ e.error = some err ∧ err.Admissible ∧
        v = .object (responseFields e.jsonrpc e.id "error" err.value) := by
  constructor
  · intro h
    cases hresult : e.result with
    | some y =>
        cases herror : e.error with
        | none =>
            rw [envelopeValue_result hresult herror, Option.some.injEq] at h
            exact .inl ⟨y, rfl, rfl, h.symm⟩
        | some err =>
            unfold Envelope.value at h
            rw [hresult, herror] at h
            cases h
    | none =>
        cases herror : e.error with
        | none =>
            unfold Envelope.value at h
            rw [hresult, herror] at h
            cases h
        | some err =>
            by_cases hok : err.Admissible
            · rw [envelopeValue_error hresult herror (hdata err herror) hok,
                Option.some.injEq] at h
              exact .inr ⟨err, rfl, rfl, hok, h.symm⟩
            · unfold Envelope.value at h
              rw [hresult, herror] at h
              exact absurd ((if_neg hok).symm.trans h) (by simp)
  · rintro (⟨y, hresult, herror, rfl⟩ | ⟨err, hresult, herror, hok, rfl⟩)
    · exact envelopeValue_result hresult herror
    · exact envelopeValue_error hresult herror (hdata err herror) hok

theorem presentField_eq_some {fs : List (String × Value)} {k : String}
    {data : Option Value} :
    presentField fs k = some data ↔
      (fs.lookup k = none ∧ data = none) ∨
      ∃ x y, fs.lookup k = some x ∧ Admits x y ∧ data = some y := by
  unfold presentField
  split
  next hnone => simp [hnone, eq_comm]
  next x hx =>
    simp only [hx, Option.map_eq_some_iff, strict_eq_some_iff, reduceCtorEq,
      false_and, Option.some.injEq, false_or]
    constructor
    · rintro ⟨y, hy, rfl⟩
      exact ⟨x, y, rfl, hy, rfl⟩
    · rintro ⟨x', y, rfl, hy, rfl⟩
      exact ⟨y, hy, rfl⟩

/-- The members of a response, found by their names. -/
inductive EnvelopeFields (fs : List (String × Value)) : Value → Prop
  | result {jsonrpc id : String} {x y : Value} :
      fs.lookup "jsonrpc" = some (.str jsonrpc) →
      fs.lookup "id" = some (.str id) → fs.lookup "result" = some x →
      fs.lookup "error" = none → Admits x y →
        EnvelopeFields fs (.object (responseFields jsonrpc id "result" y))
  | error {jsonrpc id : String} {w u : Value} :
      fs.lookup "jsonrpc" = some (.str jsonrpc) →
      fs.lookup "id" = some (.str id) → fs.lookup "result" = none →
      fs.lookup "error" = some w → ErrorMember w u →
        EnvelopeFields fs (.object (responseFields jsonrpc id "error" u))

theorem envelope_eq_some {t : Value} {e : Envelope} :
    envelope t = some e ↔ ∃ fs,
      structFields ["jsonrpc", "id", "result", "error"] 2 t = some fs ∧
        fs.lookup "jsonrpc" = some (.str e.jsonrpc) ∧
        fs.lookup "id" = some (.str e.id) ∧
        presentField fs "result" = some e.result ∧
        ((fs.lookup "error" = none ∧ e.error = none) ∨
          ∃ w err, fs.lookup "error" = some w ∧ rpcError w = some err ∧
            e.error = some err) := by
  have hstr : ∀ {o : Option Value} {s : String},
      o.bind Value.asStr? = some s ↔ o = some (.str s) := by
    intro o s
    rw [Option.bind_eq_some_iff]
    constructor
    · rintro ⟨u, rfl, hu⟩
      rw [Value.asStr?_eq_some.mp hu]
    · rintro rfl
      exact ⟨_, rfl, rfl⟩
  unfold envelope
  simp only [Option.bind_eq_bind, Option.pure_def]
  constructor
  · intro h
    obtain ⟨fs, hfs, h⟩ := Option.bind_eq_some_iff.mp h
    obtain ⟨jsonrpc, hjsonrpc, h⟩ := Option.bind_eq_some_iff.mp h
    obtain ⟨id, hid, h⟩ := Option.bind_eq_some_iff.mp h
    obtain ⟨result, hresult, h⟩ := Option.bind_eq_some_iff.mp h
    refine ⟨fs, hfs, ?_⟩
    split at h
    next hnone =>
      cases h
      exact ⟨hstr.mp hjsonrpc, hstr.mp hid, hresult, .inl ⟨hnone, rfl⟩⟩
    next w hw =>
      obtain ⟨error, herror, h⟩ := Option.bind_eq_some_iff.mp h
      obtain ⟨err, herr, rfl⟩ := Option.map_eq_some_iff.mp herror
      cases h
      exact ⟨hstr.mp hjsonrpc, hstr.mp hid, hresult,
        .inr ⟨w, err, hw, herr, rfl⟩⟩
  · obtain ⟨jsonrpc, id, result, error⟩ := e
    rintro ⟨fs, hfs, hjsonrpc, hid, hresult, herror⟩
    apply Option.bind_eq_some_iff.mpr
    refine ⟨fs, hfs, ?_⟩
    apply Option.bind_eq_some_iff.mpr
    refine ⟨jsonrpc, hstr.mpr hjsonrpc, ?_⟩
    apply Option.bind_eq_some_iff.mpr
    refine ⟨id, hstr.mpr hid, ?_⟩
    apply Option.bind_eq_some_iff.mpr
    refine ⟨result, hresult, ?_⟩
    rcases herror with ⟨hnone, rfl⟩ | ⟨w, err, hw, herr, rfl⟩
    · rw [hnone]
      rfl
    · rw [hw]
      exact congrArg (fun o => (Option.map some o).bind _) herr

/-- What is accepted, by the fields that the decoder sees. -/
theorem accepts_iff {t v : Value} :
    (envelope t).bind Envelope.value = some v ↔ ∃ fs,
      structFields ["jsonrpc", "id", "result", "error"] 2 t = some fs ∧
        EnvelopeFields fs v := by
  constructor
  · intro h
    obtain ⟨e, he, hv⟩ := Option.bind_eq_some_iff.mp h
    obtain ⟨fs, hfs, hjsonrpc, hid, hresult, herror⟩ := envelope_eq_some.mp he
    refine ⟨fs, hfs, ?_⟩
    have hdata : ∀ err, e.error = some err → err.data ≠ some .null := by
      intro err herr
      rcases herror with ⟨_, hnone⟩ | ⟨w, err', _, hread, hsome⟩
      · rw [hnone] at herr
        cases herr
      · rw [hsome, Option.some.injEq] at herr
        exact herr ▸ data_ne_null hread
    rcases (envelopeValue_eq_some hdata).mp hv with ⟨y, hy, hnone, rfl⟩ |
      ⟨err, hnone, herr, hok, rfl⟩
    · rcases presentField_eq_some.mp hresult with ⟨_, hz⟩ | ⟨x, z, hx, hxz, hz⟩
      · rw [hy] at hz
        cases hz
      · rw [hy, Option.some.injEq] at hz
        rcases herror with ⟨hlookup, _⟩ | ⟨w, err', _, _, hsome⟩
        · exact .result hjsonrpc hid hx hlookup (hz ▸ hxz)
        · rw [hnone] at hsome
          cases hsome
    · rcases presentField_eq_some.mp hresult with ⟨hlookup, _⟩ |
        ⟨x, z, _, _, hz⟩
      · rcases herror with ⟨_, hz⟩ | ⟨w, err', hw, hread, hsome⟩
        · rw [herr] at hz
          cases hz
        · rw [herr, Option.some.injEq] at hsome
          subst hsome
          exact .error hjsonrpc hid hlookup hw
            (errorMember_iff.mp ⟨err, hread, hok, rfl⟩)
      · rw [hnone] at hz
        cases hz
  · rintro ⟨fs, hfs, h⟩
    cases h with
    | @result jsonrpc id x y hjsonrpc hid hresult herror hxy =>
        have hread : envelope t = some ⟨jsonrpc, id, some y, none⟩ :=
          envelope_eq_some.mpr ⟨fs, hfs, hjsonrpc, hid,
            presentField_eq_some.mpr (.inr ⟨x, y, hresult, hxy, rfl⟩),
            .inl ⟨herror, rfl⟩⟩
        rw [hread]
        exact envelopeValue_result (e := ⟨jsonrpc, id, some y, none⟩) rfl rfl
    | @error jsonrpc id w u hjsonrpc hid hresult herror hmember =>
        obtain ⟨err, hread, hok, rfl⟩ := errorMember_iff.mpr hmember
        have henvelope : envelope t = some ⟨jsonrpc, id, none, some err⟩ :=
          envelope_eq_some.mpr ⟨fs, hfs, hjsonrpc, hid,
            presentField_eq_some.mpr (.inl ⟨hresult, rfl⟩),
            .inr ⟨w, err, herror, hread, rfl⟩⟩
        rw [henvelope]
        exact envelopeValue_error (e := ⟨jsonrpc, id, none, some err⟩) rfl rfl
          (data_ne_null hread) hok

theorem nodup_responseFields {k : String} (hk : k = "result" ∨ k = "error")
    (jsonrpc id : String) (x : Value) :
    ((responseFields jsonrpc id k x).map Prod.fst).Nodup := by
  rcases hk with rfl | rfl <;> simp [responseFields]

/-- An object is accepted for its three members. -/
theorem perm_responseFields {fs : List (String × Value)} {k : String}
    (hk : k = "result" ∨ k = "error") {jsonrpc id : String} {x : Value} :
    fs.Perm (responseFields jsonrpc id k x) ↔ (fs.map Prod.fst).Nodup ∧
      (∀ f ∈ fs, f.1 ∈ ["jsonrpc", "id", "result", "error"]) ∧
        fs.lookup "jsonrpc" = some (.str jsonrpc) ∧
        fs.lookup "id" = some (.str id) ∧ fs.lookup k = some x ∧
        ∀ l ∈ ["result", "error"], l ≠ k → fs.lookup l = none := by
  have hnodup := nodup_responseFields hk jsonrpc id x
  have hnames : ∀ f ∈ responseFields jsonrpc id k x,
      f.1 ∈ ["jsonrpc", "id", "result", "error"] := by
    rcases hk with rfl | rfl <;> simp [responseFields]
  constructor
  · intro hperm
    obtain ⟨hfs, hin, hlookup⟩ := fields_of_perm hperm hnodup hnames
    refine ⟨hfs, hin, ?_⟩
    simp only [hlookup]
    rcases hk with rfl | rfl <;> simp [responseFields, Value.lookup_cons]
  · rintro ⟨hfs, hin, hjsonrpc, hid, hx, hother⟩
    refine perm_of_lookup hfs hin hnodup hnames fun l hl => ?_
    by_cases hlk : l = k
    · subst hlk
      rw [hx]
      rcases hk with rfl | rfl <;> rfl
    · simp only [List.mem_cons, List.not_mem_nil, or_false] at hl hother
      rcases hl with rfl | rfl | hl
      · rw [hjsonrpc]
        rfl
      · rw [hid]
        rfl
      · rw [hother l hl hlk]
        rcases hk with rfl | rfl <;> rcases hl with rfl | rfl <;>
          simp [responseFields, Value.lookup_cons] at hlk ⊢

/-- Two to four values in the place of a response's fields: with all four a
result stands beside an error. -/
theorem positional_of_zip {xs : List Value} {v : Value} (hlow : 2 ≤ xs.length)
    (hhigh : xs.length ≤ 4)
    (h : EnvelopeFields (["jsonrpc", "id", "result", "error"].zip xs) v) :
    Positional (.arr xs) v := by
  obtain ⟨a, xs, rfl⟩ := List.exists_cons_of_length_pos (by omega : 0 < xs.length)
  simp only [List.length_cons] at hlow hhigh
  have hlength : xs.length = 1 ∨ xs.length = 2 ∨ xs.length = 3 := by omega
  rcases hlength with hlength | hlength | hlength
  · obtain ⟨b, rfl⟩ := List.length_eq_one_iff.mp hlength
    cases h with
    | result _ _ hresult _ _ => cases hresult
    | error _ _ _ herror _ => cases herror
  · obtain ⟨b, x, rfl⟩ := List.length_eq_two.mp hlength
    cases h with
    | result hjsonrpc hid hresult _ hxy =>
        cases hjsonrpc
        cases hid
        cases hresult
        exact .envelope hxy
    | error _ _ hresult _ _ => cases hresult
  · obtain ⟨b, x, w, rfl⟩ := List.length_eq_three.mp hlength
    cases h with
    | result _ _ _ herror _ => cases herror
    | error _ _ hresult _ _ => cases hresult

/-- What the decoder accepts, with the positional texts. -/
theorem accepts_iff_response {t v : Value} :
    (envelope t).bind Envelope.value = some v ↔
      RpcResponse t v ∨ Positional t v := by
  rw [accepts_iff]
  constructor
  · rintro ⟨fs, hfs, h⟩
    revert hfs
    have hother : fs.lookup "error" = none → ∀ l ∈ ["result", "error"],
        l ≠ "result" → fs.lookup l = none := by
      intro herror l hl hne
      simp only [List.mem_cons, List.not_mem_nil, or_false, hne,
        false_or] at hl
      rw [hl, herror]
    have hother' : fs.lookup "result" = none → ∀ l ∈ ["result", "error"],
        l ≠ "error" → fs.lookup l = none := by
      intro hresult l hl hne
      simp only [List.mem_cons, List.not_mem_nil, or_false, hne] at hl
      rw [hl, hresult]
    fun_cases structFields ["jsonrpc", "id", "result", "error"] 2 t with
    | case1 gs hgs =>
        intro hfs
        cases hfs
        cases h with
        | result hjsonrpc hid hresult herror hxy =>
            have hperm := (perm_responseFields (.inl rfl)).mpr
              ⟨hgs.1, hgs.2, hjsonrpc, hid, hresult, hother herror⟩
            exact .inl (.result hperm hxy)
        | error hjsonrpc hid hresult herror hmember =>
            have hperm := (perm_responseFields (.inr rfl)).mpr
              ⟨hgs.1, hgs.2, hjsonrpc, hid, herror, hother' hresult⟩
            cases hmember with
            | object herr => exact .inl (.error hperm herr)
            | array hhead hxy => exact .inr (.error hhead hxy hperm)
    | case3 xs hxs =>
        intro hfs
        cases hfs
        exact .inr (positional_of_zip hxs.1 hxs.2 h)
    | _ =>
        intro hfs
        cases hfs
  · have hobject : ∀ {fs : List (String × Value)}, (fs.map Prod.fst).Nodup →
        (∀ f ∈ fs, f.1 ∈ ["jsonrpc", "id", "result", "error"]) →
          EnvelopeFields fs v → ∃ gs, structFields
            ["jsonrpc", "id", "result", "error"] 2 (.obj fs) = some gs ∧
              EnvelopeFields gs v :=
      fun hnodup hnames h => ⟨_, if_pos ⟨hnodup, hnames⟩, h⟩
    rintro (h | h)
    · cases h with
      | result hperm hxy =>
          obtain ⟨hnodup, hnames, hjsonrpc, hid, hx, hother⟩ :=
            (perm_responseFields (.inl rfl)).mp hperm
          exact hobject hnodup hnames (.result hjsonrpc hid hx
            (hother "error" (by simp) (by simp)) hxy)
      | error hperm herr =>
          obtain ⟨hnodup, hnames, hjsonrpc, hid, hx, hother⟩ :=
            (perm_responseFields (.inr rfl)).mp hperm
          exact hobject hnodup hnames (.error hjsonrpc hid
            (hother "result" (by simp) (by simp)) hx (.object herr))
    · cases h with
      | envelope hxy =>
          exact ⟨_, rfl, .result rfl rfl rfl rfl hxy⟩
      | error hhead hxy hperm =>
          obtain ⟨hnodup, hnames, hjsonrpc, hid, hx, hother⟩ :=
            (perm_responseFields (.inr rfl)).mp hperm
          exact hobject hnodup hnames (.error hjsonrpc hid
            (hother "result" (by simp) (by simp)) hx (.array hhead hxy))

/-! ## The decoder -/

/-- A value that is handed on: only the code of an error is no counter. -/
inductive Answer : Value → Prop
  | result {jsonrpc id : String} {y : Value} : Safe y →
      Answer (.object (responseFields jsonrpc id "result" y))
  | error {jsonrpc id message : String} {n : ℕ} {y : Value} :
      ErrorHead n message → Safe y → Answer (.object
        (responseFields jsonrpc id "error" (errorValue n message y)))

theorem Admits.safe {x y : Value} (h : Admits x y) : Safe y :=
  safe_of_strict (strict_eq_some_iff.mpr h)

theorem RpcResponse.answer {t v : Value} (h : RpcResponse t v) : Answer v := by
  cases h with
  | result _ hxy => exact .result hxy.safe
  | error _ herr =>
      cases herr with
      | plain hhead _ => exact .error hhead (.null trivial)
      | data hhead _ hxy => exact .error hhead hxy.safe

theorem Positional.answer {t v : Value} (h : Positional t v) : Answer v := by
  cases h with
  | envelope hxy => exact .result hxy.safe
  | error hhead hxy _ => exact .error hhead hxy.safe

/-- No text is a response object and positional at once. -/
theorem Positional.not_response {t v w : Value} (h : Positional t v) :
    ¬RpcResponse t w := by
  intro hresponse
  cases h with
  | envelope _ => cases hresponse
  | error hhead hxy hperm =>
      obtain ⟨hnodup, _, _, _, herror, hother⟩ :=
        (perm_responseFields (.inr rfl)).mp hperm
      cases hresponse with
      | result hperm' _ =>
          obtain ⟨_, _, _, _, hresult, _⟩ :=
            (perm_responseFields (.inl rfl)).mp hperm'
          rw [hother "result" (by simp) (by simp)] at hresult
          cases hresult
      | error hperm' _ =>
          obtain ⟨_, _, _, _, herror', _⟩ :=
            (perm_responseFields (.inr rfl)).mp hperm'
          rw [herror] at herror'
          cases herror'

/-- For every value a text is accepted exactly when it is a response object of
the grammar, unless the text gives fields by position. -/
theorem rpc_decoder_grammar (bytes : Bytes)
    (hsize : bytes.length ≤ maxJsonBytes) :
    ((∀ v, parseRpcJson bytes = some v ↔ ∃ cs t, bytes = Utf8.encode cs ∧
        Json.Text t cs ∧ t.depth ≤ maxJsonDepth ∧ RpcResponse t v) ↔
      ¬∃ cs t v, bytes = Utf8.encode cs ∧ Json.Text t cs ∧
        t.depth ≤ maxJsonDepth ∧ Positional t v) ∧
    ∀ v, parseRpcJson bytes = some v → Answer v := by
  have hparse : ∀ v, parseRpcJson bytes = some v ↔ ∃ cs t,
      bytes = Utf8.encode cs ∧ Json.Text t cs ∧ t.depth ≤ maxJsonDepth ∧
        (RpcResponse t v ∨ Positional t v) := by
    intro v
    rw [parseRpcJson, if_neg (by omega), Option.bind_assoc,
      Option.bind_eq_some_iff]
    constructor
    · rintro ⟨t, ht, hv⟩
      obtain ⟨cs, hbytes, htext, hdepth⟩ := syntaxTree_eq_some_iff.mp ht
      exact ⟨cs, t, hbytes, htext, hdepth, accepts_iff_response.mp hv⟩
    · rintro ⟨cs, t, hbytes, htext, hdepth, hv⟩
      exact ⟨t, syntaxTree_eq_some_iff.mpr ⟨cs, hbytes, htext, hdepth⟩,
        accepts_iff_response.mpr hv⟩
  refine ⟨⟨?_, ?_⟩, ?_⟩
  · rintro hgrammar ⟨cs, t, v, hbytes, htext, hdepth, hpos⟩
    have hv : parseRpcJson bytes = some v :=
      (hparse v).mpr ⟨cs, t, hbytes, htext, hdepth, .inr hpos⟩
    obtain ⟨ds, u, hds, hutext, _, hresponse⟩ := (hgrammar v).mp hv
    obtain rfl := Utf8.encode_injective (hbytes.symm.trans hds)
    rw [← htext.unique hutext] at hresponse
    exact hpos.not_response hresponse
  · intro hnone v
    rw [hparse]
    constructor
    · rintro ⟨cs, t, hbytes, htext, hdepth, hresponse | hpos⟩
      · exact ⟨cs, t, hbytes, htext, hdepth, hresponse⟩
      · exact absurd ⟨cs, t, v, hbytes, htext, hdepth, hpos⟩ hnone
    · rintro ⟨cs, t, hbytes, htext, hdepth, hresponse⟩
      exact ⟨cs, t, hbytes, htext, hdepth, .inl hresponse⟩
  · intro v hv
    obtain ⟨cs, t, _, _, _, hresponse | hpos⟩ := (hparse v).mp hv
    · exact hresponse.answer
    · exact hpos.answer

/-- A text that gives the response by position. -/
def positionalText : Bytes := Utf8.encode "[\"2.0\",\"1\",null]".toList

theorem rpc_decoder_grammar_positional : positionalText.length ≤ maxJsonBytes ∧
    ((∀ v, parseRpcJson positionalText = some v ↔ ∃ cs t,
        positionalText = Utf8.encode cs ∧ Json.Text t cs ∧
          t.depth ≤ maxJsonDepth ∧ RpcResponse t v) ↔
      ¬∃ cs t v, positionalText = Utf8.encode cs ∧ Json.Text t cs ∧
        t.depth ≤ maxJsonDepth ∧ Positional t v) :=
  ⟨by decide +kernel, (rpc_decoder_grammar _ (by decide +kernel)).1⟩

theorem syntaxTree_positionalText : syntaxTree positionalText =
    some (.arr [.str "2.0", .str "1", .null]) := by
  decide +kernel

/-- The text is accepted although no response object reads so. -/
theorem rpc_decoder_grammar_fails : ¬∀ bytes : Bytes,
    bytes.length ≤ maxJsonBytes → ∀ v, parseRpcJson bytes = some v ↔
      ∃ cs t, bytes = Utf8.encode cs ∧ Json.Text t cs ∧
        t.depth ≤ maxJsonDepth ∧ RpcResponse t v := by
  intro h
  have hv : parseRpcJson positionalText =
      some (.object (responseFields "2.0" "1" "result" .null)) := by
    rw [parseRpcJson, if_neg (by decide +kernel), syntaxTree_positionalText]
    exact accepts_iff_response.mpr (.inr (.envelope .null))
  obtain ⟨cs, t, hcs, htext, hdepth, hresponse⟩ :=
    (h positionalText (by decide +kernel) _).mp hv
  have htree := syntaxTree_eq_some_iff.mpr ⟨cs, hcs, htext, hdepth⟩
  rw [syntaxTree_positionalText, Option.some.injEq] at htree
  subst htree
  cases hresponse

end AgentGateway
