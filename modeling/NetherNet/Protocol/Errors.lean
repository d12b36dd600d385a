import Mathlib.Data.List.Basic

/-! Session errors, as members of the enumeration and as the codes the wire may
carry, and the exceptions whose constructors read the member's name. -/
namespace NetherNet

/-- `SessionError`, in the order of its values. -/
inductive SessionError where
  | none | destinationNotLoggedIn | negotiationTimeout | wrongTransportVersion
  | failedToCreatePeerConnection | ice | connectRequest | connectResponse | candidateAdd
  | inactivityTimeout | failedToCreateOffer | failedToCreateAnswer | failedToSetLocalDescription
  | failedToSetRemoteDescription | negotiationTimeoutWaitingForResponse
  | negotiationTimeoutWaitingForAccept | incomingConnectionIgnored | signalingParsingFailure
  | signalingUnknownError | signalingUnicastMessageDeliveryFailed
  | signalingBroadcastDeliveryFailed | signalingMessageDeliveryFailed | signalingTurnAuthFailed
  | signalingFallbackToBestEffortDelivery | noSignalingChannel | notLoggedIn
  | signalingFailedToSend | relayServerConfigurationResultFailure
  | relayServerConfigParsingErrorNoUrls | relayServerConfigParsingErrorNoCreds
  | relayServerConfigParsingErrorNoServers | relayServerConfigParsingErrorNoExpiration
  | dataChannelClosed | internalErrorJsonSerialization | invalidArgument | genericFailure
  | failedToCreateIdentityAssertion | identityNotAllowed
  deriving DecidableEq, Repr

namespace SessionError

def members : List SessionError :=
  [none, destinationNotLoggedIn, negotiationTimeout, wrongTransportVersion,
   failedToCreatePeerConnection, ice, connectRequest, connectResponse, candidateAdd,
   inactivityTimeout, failedToCreateOffer, failedToCreateAnswer, failedToSetLocalDescription,
   failedToSetRemoteDescription, negotiationTimeoutWaitingForResponse,
   negotiationTimeoutWaitingForAccept, incomingConnectionIgnored, signalingParsingFailure,
   signalingUnknownError, signalingUnicastMessageDeliveryFailed,
   signalingBroadcastDeliveryFailed, signalingMessageDeliveryFailed, signalingTurnAuthFailed,
   signalingFallbackToBestEffortDelivery, noSignalingChannel, notLoggedIn,
   signalingFailedToSend, relayServerConfigurationResultFailure,
   relayServerConfigParsingErrorNoUrls, relayServerConfigParsingErrorNoCreds,
   relayServerConfigParsingErrorNoServers, relayServerConfigParsingErrorNoExpiration,
   dataChannelClosed, internalErrorJsonSerialization, invalidArgument, genericFailure,
   failedToCreateIdentityAssertion, identityNotAllowed]

/-- `int(error)`. -/
def toInt : SessionError → Int
  | none => 0 | destinationNotLoggedIn => 1 | negotiationTimeout => 2 | wrongTransportVersion => 3
  | failedToCreatePeerConnection => 4 | ice => 5 | connectRequest => 6 | connectResponse => 7
  | candidateAdd => 8 | inactivityTimeout => 9 | failedToCreateOffer => 10
  | failedToCreateAnswer => 11 | failedToSetLocalDescription => 12
  | failedToSetRemoteDescription => 13 | negotiationTimeoutWaitingForResponse => 14
  | negotiationTimeoutWaitingForAccept => 15 | incomingConnectionIgnored => 16
  | signalingParsingFailure => 17 | signalingUnknownError => 18
  | signalingUnicastMessageDeliveryFailed => 19 | signalingBroadcastDeliveryFailed => 20
  | signalingMessageDeliveryFailed => 21 | signalingTurnAuthFailed => 22
  | signalingFallbackToBestEffortDelivery => 23 | noSignalingChannel => 24 | notLoggedIn => 25
  | signalingFailedToSend => 26 | relayServerConfigurationResultFailure => 27
  | relayServerConfigParsingErrorNoUrls => 28 | relayServerConfigParsingErrorNoCreds => 29
  | relayServerConfigParsingErrorNoServers => 30 | relayServerConfigParsingErrorNoExpiration => 31
  | dataChannelClosed => 32 | internalErrorJsonSerialization => 33 | invalidArgument => 34
  | genericFailure => 35 | failedToCreateIdentityAssertion => 36 | identityNotAllowed => 37

/-- The member's `name`, which the exception texts quote. -/
def name : SessionError → String
  | none => "NONE" | destinationNotLoggedIn => "DESTINATION_NOT_LOGGED_IN"
  | negotiationTimeout => "NEGOTIATION_TIMEOUT" | wrongTransportVersion => "WRONG_TRANSPORT_VERSION"
  | failedToCreatePeerConnection => "FAILED_TO_CREATE_PEER_CONNECTION" | ice => "ICE"
  | connectRequest => "CONNECT_REQUEST" | connectResponse => "CONNECT_RESPONSE"
  | candidateAdd => "CANDIDATE_ADD" | inactivityTimeout => "INACTIVITY_TIMEOUT"
  | failedToCreateOffer => "FAILED_TO_CREATE_OFFER"
  | failedToCreateAnswer => "FAILED_TO_CREATE_ANSWER"
  | failedToSetLocalDescription => "FAILED_TO_SET_LOCAL_DESCRIPTION"
  | failedToSetRemoteDescription => "FAILED_TO_SET_REMOTE_DESCRIPTION"
  | negotiationTimeoutWaitingForResponse => "NEGOTIATION_TIMEOUT_WAITING_FOR_RESPONSE"
  | negotiationTimeoutWaitingForAccept => "NEGOTIATION_TIMEOUT_WAITING_FOR_ACCEPT"
  | incomingConnectionIgnored => "INCOMING_CONNECTION_IGNORED"
  | signalingParsingFailure => "SIGNALING_PARSING_FAILURE"
  | signalingUnknownError => "SIGNALING_UNKNOWN_ERROR"
  | signalingUnicastMessageDeliveryFailed => "SIGNALING_UNICAST_MESSAGE_DELIVERY_FAILED"
  | signalingBroadcastDeliveryFailed => "SIGNALING_BROADCAST_DELIVERY_FAILED"
  | signalingMessageDeliveryFailed => "SIGNALING_MESSAGE_DELIVERY_FAILED"
  | signalingTurnAuthFailed => "SIGNALING_TURN_AUTH_FAILED"
  | signalingFallbackToBestEffortDelivery => "SIGNALING_FALLBACK_TO_BEST_EFFORT_DELIVERY"
  | noSignalingChannel => "NO_SIGNALING_CHANNEL" | notLoggedIn => "NOT_LOGGED_IN"
  | signalingFailedToSend => "SIGNALING_FAILED_TO_SEND"
  | relayServerConfigurationResultFailure => "RELAY_SERVER_CONFIGURATION_RESULT_FAILURE"
  | relayServerConfigParsingErrorNoUrls => "RELAY_SERVER_CONFIG_PARSING_ERROR_NO_URLS"
  | relayServerConfigParsingErrorNoCreds => "RELAY_SERVER_CONFIG_PARSING_ERROR_NO_CREDS"
  | relayServerConfigParsingErrorNoServers => "RELAY_SERVER_CONFIG_PARSING_ERROR_NO_SERVERS"
  | relayServerConfigParsingErrorNoExpiration => "RELAY_SERVER_CONFIG_PARSING_ERROR_NO_EXPIRATION"
  | dataChannelClosed => "DATA_CHANNEL_CLOSED"
  | internalErrorJsonSerialization => "INTERNAL_ERROR_JSON_SERIALIZATION"
  | invalidArgument => "INVALID_ARGUMENT" | genericFailure => "GENERIC_FAILURE"
  | failedToCreateIdentityAssertion => "FAILED_TO_CREATE_IDENTITY_ASSERTION"
  | identityNotAllowed => "IDENTITY_NOT_ALLOWED"

/-- `SessionError(value)`, or nothing where the enumeration raises ValueError. -/
def ofInt? (value : Int) : Option SessionError := members.find? (fun e => e.toInt = value)

theorem ofInt?_toInt (e : SessionError) : ofInt? e.toInt = some e := by
  cases e <;> decide

theorem toInt_of_ofInt? {value : Int} {e : SessionError} (h : ofInt? value = some e) : e.toInt = value := by
  simpa using List.find?_some h

end SessionError

/-- An error code as Python carries it: an enumeration member, or a bare int for
a code outside the enumeration, which has no `name`. -/
inductive ErrorCode where
  | member : SessionError → ErrorCode
  | unknown : Int → ErrorCode
  deriving DecidableEq, Repr

namespace ErrorCode

/-- `int(error)`. -/
def toInt : ErrorCode → Int
  | member e => e.toInt
  | unknown n => n

/-- The conversion in `parse`: a member where there is one, else the int itself. -/
def ofInt (n : Int) : ErrorCode :=
  match SessionError.ofInt? n with
  | some e => member e
  | none => unknown n

@[simp] theorem toInt_ofInt (n : Int) : (ofInt n).toInt = n := by
  unfold ofInt
  cases h : SessionError.ofInt? n with
  | none => rfl
  | some e => exact SessionError.toInt_of_ofInt? h

@[simp] theorem ofInt_toInt_member (e : SessionError) : ofInt (member e).toInt = member e := by
  simp [ofInt, toInt, SessionError.ofInt?_toInt]

/-- Whether the code is a member of the enumeration, and so has a `name`. -/
def IsMember (c : ErrorCode) : Prop := ∃ e, c = member e

instance (c : ErrorCode) : Decidable c.IsMember :=
  match c with
  | member e => .isTrue ⟨e, rfl⟩
  | unknown _ => .isFalse (fun ⟨_, h⟩ => nomatch h)

end ErrorCode

/-- The send reliability of an application packet. -/
inductive SendType where
  | unreliable | reliable
  deriving DecidableEq, Repr

/-- What the library raises, with the text each exception carries. -/
inductive Exn where
  | connectionFailed (error : SessionError) (text : String)
  | connectionClosed (error : SessionError) (text : String)
  | attributeError (text : String)
  | valueError
  deriving DecidableEq, Repr

namespace Exn

private def noName : Exn := attributeError "'int' object has no attribute 'name'"

/-- `ConnectionFailed(error)`: the constructor itself fails on a bare int. -/
def ofFailed : ErrorCode → Except Exn Exn
  | .member e => .ok (connectionFailed e ("connection failed: " ++ e.name ++ " (" ++ toString e.toInt ++ ")"))
  | .unknown _ => .error noName

/-- `ConnectionClosed(error)`: the constructor itself fails on a bare int. -/
def ofClosed : ErrorCode → Except Exn Exn
  | .member e => .ok (connectionClosed e ("connection closed: " ++ e.name ++ " (" ++ toString e.toInt ++ ")"))
  | .unknown _ => .error noName

/-- `raise` of a constructor call: what the constructor built, or what it raised itself. -/
def raising : Except Exn Exn → Exn
  | .ok e => e
  | .error e => e

end Exn
end NetherNet
