import CcReminder.Channels.Sender

/-!
# The WeCom robot

`channels/wecom.rs`.
-/

namespace CcReminder

open Lib

def WECOM_MARKDOWN_BYTE_LIMIT : Nat := 4096
def WECOM_TEXT_BYTE_LIMIT : Nat := 2048

structure WeComSender where
  endpoint : String

namespace WeComSender

def mapPlatformError (errcode : Int) (errmsg : String) (status : UInt16) : DeliveryError :=
  if errcode = 40014 ∨ errcode = 41009 ∨ errcode = 40001 then
    platformError .authentication "wecom.authentication" errcode errmsg status
  else if errcode = 48002 ∨ errcode = 48011 then
    platformError .permission "wecom.permission" errcode errmsg status
  else if errcode = 41001 ∨ errcode = 41005 ∨ errcode = 40029 then
    platformError .signature "wecom.signature" errcode errmsg status
  else platformError .temporaryPlatform "wecom.temporary" errcode errmsg status

variable (sv : ChannelServices) (sender : WeComSender)

def sendOne (body : Body) (attemptMarkdown : Bool) : Send DeliveryOutcome := do
  let exchange ← Send.post sender.endpoint body
  let (status, errcode, errmsg) ←
    Send.ofExcept (sv.readReply "malformed WeCom response" exchange.reply)
  if errcode = 0 then
    pure (.success {
      httpStatus := status, platformCode := some (toString errcode), sentAt := exchange.after })
  else if attemptMarkdown ∧ errcode = 45033 then pure .tryTextFallback
  else .fail (mapPlatformError errcode errmsg status)

def markdownBody (document : NotificationDocument) : Body :=
  .object [("msgtype", .string "markdown"),
    ("markdown", .object [("content",
      .string (truncateBytes (renderMarkdown document) WECOM_MARKDOWN_BYTE_LIMIT))])]

def textBody (document : NotificationDocument) : Body :=
  .object [("msgtype", .string "text"),
    ("text", .object [("content",
      .string (truncateBytes (renderText document) WECOM_TEXT_BYTE_LIMIT))])]

def send (document : NotificationDocument) : Send DeliveryReceipt :=
  sendWithFallback (sendOne sv sender) (markdownBody document) (textBody document)
    (rejectedBoth "wecom.format" "45033")

end WeComSender

end CcReminder
