import DepositPortal.Auth.FamilyRuns
import DepositPortal.Auth.Renewal
import DepositPortal.Frontend.Client
import DepositPortal.Frontend.Tabs
import DepositPortal.Public.Upload
import DepositPortal.Public.Deposits
import DepositPortal.Public.NoLoss
import DepositPortal.Public.Orphans
import DepositPortal.Public.Completion
import DepositPortal.Public.Effects
import DepositPortal.ReadCommitted
import DepositPortal.Requests.DepositUrl
import DepositPortal.Requests.PublicLinks
import DepositPortal.Requests.Regenerate
import DepositPortal.Requests.RegenerateRuns
import DepositPortal.Requests.Reads
import DepositPortal.Requests.Pages
import DepositPortal.Storage.Prefix
import DepositPortal.Requests.Readings
import DepositPortal.Public.Session
import DepositPortal.Portal.CutOff
import DepositPortal.Portal.Dashboard
import DepositPortal.Portal.Doors
import DepositPortal.Portal.Issued
import DepositPortal.Portal.LastLink
import DepositPortal.Portal.Prompt
import DepositPortal.Portal.Lasting
import DepositPortal.Portal.Reseed
import DepositPortal.Portal.Linked
import DepositPortal.Portal.Outline
import DepositPortal.Portal.Practice
import DepositPortal.Portal.Alone
import DepositPortal.Portal.Isolation
import DepositPortal.Portal.Confined
import DepositPortal.Portal.Revocation
import DepositPortal.Portal.Serial
import DepositPortal.Portal.System
import DepositPortal.Frontend.Download
import DepositPortal.Public.Failed
import DepositPortal.Number
import DepositPortal.Url
import DepositPortal.Config.Env
import DepositPortal.Config.CookiePaths
import DepositPortal.Config.Named
import DepositPortal.Config.Deadlines
import DepositPortal.Frontend.DepositPage
import DepositPortal.Frontend.DepositTabs
import DepositPortal.Patrol.Solution
import DepositPortal.Frontend.Resource
import DepositPortal.Frontend.Session
import DepositPortal.Frontend.SafeFileName
import DepositPortal.Infra.RedactedUri
import DepositPortal.Config.Messages
import DepositPortal.Infra.EnvFile
import DepositPortal.Infra.Install
import DepositPortal.Frontend.ExpiryPreview
import DepositPortal.Portal.CreateBody
import DepositPortal.Portal.Checklist
