import Xylem.Http.Redirect
import Xylem.Lib.Fields

namespace Xylem.Http

open Lib HttpPoolKey

variable (key : HttpPoolKey)

/-- The texts of a key in the order of `_http_pool_make_key`. -/
def HttpPoolKey.texts : List (Option (List UInt8)) :=
  [some key.host, some key.scheme.text, key.proxyHost, key.username, key.password, key.ca, key.cert, key.key]

/-- What `_http_pool_make_key` gives to SHA-256. -/
def HttpPoolKey.hashed : List UInt8 :=
  key.texts.flatMap field ++ (littleEndian 4 key.port.toNat ++
    (littleEndian 4 key.proxyPort.toNat ++ littleEndian 4 (if key.skipVerify then 1 else 0)))

/-- Strings that are in memory with the zero at their end. -/
def HttpPoolKey.InMemory : Prop := ∀ text ∈ key.texts, fieldSize text < 2 ^ 64

theorem HttpScheme.text_inj {left right : HttpScheme} (same : left.text = right.text) : left = right := by
  cases left <;> cases right <;> first | rfl | exact absurd same (by decide)

theorem HttpPoolKey.hashed_inj {left right : HttpPoolKey} (leftFits : left.InMemory) (rightFits : right.InMemory)
    (same : left.hashed = right.hashed) : left = right := by
  have port : ∀ {m n : UInt16}, littleEndian 4 m.toNat = littleEndian 4 n.toNat → m = n := by
    intro m n equal
    have mFits := m.toNat_lt
    have nFits := n.toNat_lt
    exact UInt16.toNat_inj.mp (littleEndian_inj (by omega) (by omega) equal)
  obtain ⟨texts, same⟩ := fields_append_inj (show left.texts.length = right.texts.length from rfl) leftFits rightFits same
  obtain ⟨ports, same⟩ := List.append_inj same (by rw [littleEndian_length, littleEndian_length])
  obtain ⟨proxyPorts, flags⟩ := List.append_inj same (by rw [littleEndian_length, littleEndian_length])
  have verify : left.skipVerify = right.skipVerify := by
    cases first : left.skipVerify <;> cases second : right.skipVerify <;> rw [first, second] at flags <;>
      first | rfl | exact absurd flags (by decide)
  simp only [HttpPoolKey.texts, List.cons.injEq, Option.some.injEq, and_true] at texts
  obtain ⟨host, scheme, proxyHost, username, password, ca, cert, key⟩ := texts
  obtain ⟨⟩ := left
  obtain ⟨⟩ := right
  simp only [mk.injEq]
  exact ⟨host, HttpScheme.text_inj scheme, proxyHost, username, password, ca, cert, key, port ports, port proxyPorts,
    verify⟩

/-- Requests for which the same bytes are hashed agree on where they go and on what secures the way. -/
theorem http_pool_key_separates {a b : HttpUrl} {p q : Option HttpProxy} {t u : Option HttpTls}
    (fits : (httpPoolMakeKey a p t).InMemory) (fits' : (httpPoolMakeKey b q u).InMemory)
    (same : (httpPoolMakeKey a p t).hashed = (httpPoolMakeKey b q u).hashed) :
    a.scheme = b.scheme ∧ a.host = b.host ∧ a.port = b.port ∧
    p.bind HttpProxy.host = q.bind HttpProxy.host ∧ (p.map HttpProxy.port).getD 0 = (q.map HttpProxy.port).getD 0 ∧
    p.bind HttpProxy.username = q.bind HttpProxy.username ∧ p.bind HttpProxy.password = q.bind HttpProxy.password ∧
    (a.scheme = .https → t.bind HttpTls.ca = u.bind HttpTls.ca ∧ t.bind HttpTls.cert = u.bind HttpTls.cert ∧
      t.bind HttpTls.key = u.bind HttpTls.key ∧ t.any HttpTls.skipVerify = u.any HttpTls.skipVerify) := by
  have keys := hashed_inj fits fits' same
  have scheme : a.scheme = b.scheme := congrArg HttpPoolKey.scheme keys
  have ca := congrArg HttpPoolKey.ca keys
  have cert := congrArg HttpPoolKey.cert keys
  have key := congrArg HttpPoolKey.key keys
  have verify := congrArg skipVerify keys
  refine ⟨scheme, congrArg host keys, congrArg port keys, congrArg proxyHost keys,
    congrArg proxyPort keys, congrArg username keys, congrArg password keys,
    fun https => ?_⟩
  simp only [httpPoolMakeKey, if_pos https, if_pos (scheme ▸ https)] at ca cert key verify
  exact ⟨ca, cert, key, verify⟩

/-- No proxy, and a proxy of which nothing is given. -/
theorem http_pool_key_separates_absent : ∃ url : HttpUrl, url.host = ascii "a" ∧
    (httpPoolMakeKey url none none).hashed = (httpPoolMakeKey url (some ⟨none, 0, none, none⟩) none).hashed ∧
    (none : Option HttpProxy).bind HttpProxy.host = (some ⟨none, 0, none, none⟩ : Option HttpProxy).bind HttpProxy.host := by
  let url : HttpUrl := ⟨.https, ascii "a", 443, ascii "/", by decide, by decide, by decide⟩
  have fits : (httpPoolMakeKey url none none).InMemory := by
    unfold HttpPoolKey.InMemory
    decide
  have same : (httpPoolMakeKey url none none).hashed =
      (httpPoolMakeKey url (some ⟨none, 0, none, none⟩) none).hashed := rfl
  exact ⟨url, rfl, same, (http_pool_key_separates fits fits same).2.2.2.1⟩

end Xylem.Http
